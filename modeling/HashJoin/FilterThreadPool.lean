import Mathlib.Tactic
import Mathlib.Logic.Relation

/-!
# The filter thread pool

`FilterThreadPool` splits `[0, num_tasks)` into one range per thread and hands the ranges over
through one mutex, one condition variable and three flags per thread. `function` and `num_tasks`
are written and read without a lock. Thread `i` holds its mutex from the test of its predicate
until it has set `finished[i]`; a section of the caller is one step. Every wait may wake
spuriously, and a notification wakes whoever sleeps on that condition variable.

`history`, `begun` and `ended` record the calls so far and the invocations of each thread; no
step reads them.
-/

namespace HashJoin.FilterThreadPool

/-- `begin_idx` for `n` threads. -/
def beginIdx (n numTasks threadId : Nat) : Nat :=
  threadId * (numTasks / n) + min threadId (numTasks % n)

/-! ## The split of the tasks -/

/-- The ranges `[begin_idx(i), begin_idx(i + 1))` cut `[0, m)` into `n` consecutive pieces. -/
structure Splits (n m : Nat) : Prop where
  ordered : ∀ i j, i < j → beginIdx n m (i + 1) ≤ beginIdx n m j
  disjoint : ∀ i j k, beginIdx n m i ≤ k → k < beginIdx n m (i + 1) →
    beginIdx n m j ≤ k → k < beginIdx n m (j + 1) → i = j
  covers : ∀ k, k < m ↔ ∃ i < n, beginIdx n m i ≤ k ∧ k < beginIdx n m (i + 1)

theorem beginIdx_zero (n m : Nat) : beginIdx n m 0 = 0 := by
  simp [beginIdx]

theorem beginIdx_last {n : Nat} (hn : 0 < n) (m : Nat) : beginIdx n m n = m := by
  unfold beginIdx
  rw [min_eq_right (Nat.mod_lt m hn).le]
  exact Nat.div_add_mod m n

theorem beginIdx_mono (n m : Nat) : Monotone (beginIdx n m) := fun _ _ h =>
  Nat.add_le_add (Nat.mul_le_mul_right _ h) (min_le_min_right _ h)

/-- A point below the end of the first `k` pieces lies in one of them. -/
theorem exists_piece {n m x : Nat} :
    ∀ k, x < beginIdx n m k → ∃ i < k, beginIdx n m i ≤ x ∧ x < beginIdx n m (i + 1)
  | 0, h => by
    rw [beginIdx_zero] at h
    omega
  | k + 1, h => by
    by_cases hx : x < beginIdx n m k
    · obtain ⟨i, hi, hb⟩ := exists_piece k hx
      exact ⟨i, by omega, hb⟩
    · exact ⟨k, by omega, by omega, h⟩

theorem splits {n : Nat} (hn : 0 < n) (m : Nat) : Splits n m := by
  have hord : ∀ i j, i < j → beginIdx n m (i + 1) ≤ beginIdx n m j :=
    fun _ _ h => beginIdx_mono n m h
  refine ⟨hord, fun i j k hi hi' hj hj' => ?_, fun k => ⟨fun hk => ?_, ?_⟩⟩
  · rcases lt_trichotomy i j with h | h | h
    · have := hord i j h
      omega
    · exact h
    · have := hord j i h
      omega
  · exact exists_piece n (by rwa [beginIdx_last hn])
  · rintro ⟨i, hi, -, hk⟩
    calc k < beginIdx n m (i + 1) := hk
      _ ≤ beginIdx n m n := beginIdx_mono n m hi
      _ = m := beginIdx_last hn m

/-! ## The threads -/

variable {Fn : Type} {n : Nat}

/-- Where thread `i` stands in `run_loop`. -/
inductive WorkerPc (Fn : Type) where
  /-- About to lock its mutex and test the predicate. -/
  | entering
  | asleep
  /-- Holds the mutex; about to compute `begin`. -/
  | reading
  /-- About to compute `end`. -/
  | hasBegin (b : Nat)
  | hasRange (b e : Nat)
  /-- In `function(begin, end)`. -/
  | calling (f : Fn) (b e : Nat)
  /-- About to set `finished` and unlock. -/
  | called
  /-- Unlocked; about to `notify_one`. -/
  | toNotify
  | exited

/-- Where the caller stands in `run` or in the destructor; the index is that of the loop. -/
inductive CallerPc where
  | idle
  /-- `function` is written, `num_tasks` is not. -/
  | wroteFunction (numTasks : Nat)
  | arming (i : Nat)
  | notifying (i : Nat)
  /-- About to lock the mutex of thread `i` and test `finished[i]`. -/
  | waiting (i : Nat)
  | asleep (i : Nat)
  | stopping (i : Nat)
  | stopNotifying (i : Nat)
  deriving DecidableEq

structure Worker (Fn : Type) where
  pc : WorkerPc Fn := .entering
  begun : List (Fn × Nat × Nat) := []
  ended : List (Fn × Nat × Nat) := []

structure State (Fn : Type) (n : Nat) where
  workers : Fin n → Worker Fn := fun _ => {}
  caller : CallerPc := .idle
  hasFunction : Fin n → Bool := fun _ => false
  finished : Fin n → Bool := fun _ => false
  destructed : Fin n → Bool := fun _ => false
  function : Option Fn := none
  numTasks : Nat
  history : List (Fn × Nat) := []

/-- The thread is between the test of its predicate and the unlock. -/
def WorkerPc.holdsMutex : WorkerPc Fn → Bool
  | .reading | .hasBegin _ | .hasRange _ _ | .calling _ _ _ | .called => true
  | _ => false

namespace State

/-- `has_function[i] and not finished[i]`. -/
def pending (s : State Fn n) (i : Fin n) : Bool := s.hasFunction i && !s.finished i

def mutexFree (s : State Fn n) (i : Fin n) : Prop := (s.workers i).pc.holdsMutex = false

def setWorker (s : State Fn n) (i : Fin n) (x : Worker Fn) : State Fn n :=
  { s with workers := Function.update s.workers i x }

def setPc (s : State Fn n) (i : Fin n) (pc : WorkerPc Fn) : State Fn n :=
  s.setWorker i { s.workers i with pc := pc }

def setCaller (s : State Fn n) (c : CallerPc) : State Fn n := { s with caller := c }

/-- `cv.notify_one()` on the condition variable of thread `i`, by the caller. -/
def notifyWorker (s : State Fn n) (i : Fin n) : State Fn n :=
  match (s.workers i).pc with
  | .asleep => s.setPc i .entering
  | _ => s

/-- `cv.notify_one()` on the condition variable of thread `i`, by the thread. -/
def notifyCaller (s : State Fn n) (i : Fin n) : State Fn n :=
  if s.caller = .asleep i then s.setCaller (.waiting i) else s

end State

/-- One step of the caller or of a thread. -/
inductive Step : State Fn n → State Fn n → Prop where
  /-- `run(function, num_tasks)` writes `function`. -/
  | call {s : State Fn n} (f : Fn) (m : Nat) : s.caller = .idle →
      Step s { s with
        function := some f
        caller := .wroteFunction m
        history := s.history ++ [(f, m)] }
  | writeNumTasks {s : State Fn n} (m : Nat) : s.caller = .wroteFunction m →
      Step s { s with numTasks := m, caller := .arming 0 }
  | arm {s : State Fn n} (i : Fin n) : s.caller = .arming i → s.mutexFree i →
      Step s { s with
        hasFunction := Function.update s.hasFunction i true
        finished := Function.update s.finished i false
        caller := .arming (i + 1) }
  | armed {s : State Fn n} : s.caller = .arming n → Step s (s.setCaller (.notifying 0))
  | notify {s : State Fn n} (i : Fin n) : s.caller = .notifying i →
      Step s ((s.notifyWorker i).setCaller (.notifying (i + 1)))
  | notified {s : State Fn n} : s.caller = .notifying n → Step s (s.setCaller (.waiting 0))
  | seeFinished {s : State Fn n} (i : Fin n) : s.caller = .waiting i → s.mutexFree i →
      s.finished i = true → Step s (s.setCaller (.waiting (i + 1)))
  | callerSleep {s : State Fn n} (i : Fin n) : s.caller = .waiting i → s.mutexFree i →
      s.finished i = false → Step s (s.setCaller (.asleep i))
  | spuriousCaller {s : State Fn n} (i : Nat) : s.caller = .asleep i →
      Step s (s.setCaller (.waiting i))
  | callReturns {s : State Fn n} : s.caller = .waiting n → Step s (s.setCaller .idle)
  /-- The destructor. -/
  | destroy {s : State Fn n} : s.caller = .idle → Step s (s.setCaller (.stopping 0))
  | destruct {s : State Fn n} (i : Fin n) : s.caller = .stopping i → s.mutexFree i →
      Step s { s with
        destructed := Function.update s.destructed i true
        caller := .stopping (i + 1) }
  | destructed {s : State Fn n} : s.caller = .stopping n →
      Step s (s.setCaller (.stopNotifying 0))
  | notifyDestructed {s : State Fn n} (i : Fin n) : s.caller = .stopNotifying i →
      Step s ((s.notifyWorker i).setCaller (.stopNotifying (i + 1)))
  | exit {s : State Fn n} (i : Fin n) : (s.workers i).pc = .entering →
      s.destructed i = true → Step s (s.setPc i .exited)
  | begin {s : State Fn n} (i : Fin n) : (s.workers i).pc = .entering →
      s.destructed i = false → s.pending i = true → Step s (s.setPc i .reading)
  | sleep {s : State Fn n} (i : Fin n) : (s.workers i).pc = .entering →
      s.destructed i = false → s.pending i = false → Step s (s.setPc i .asleep)
  | spurious {s : State Fn n} (i : Fin n) : (s.workers i).pc = .asleep →
      Step s (s.setPc i .entering)
  | readBegin {s : State Fn n} (i : Fin n) : (s.workers i).pc = .reading →
      Step s (s.setPc i (.hasBegin (beginIdx n s.numTasks i)))
  | readEnd {s : State Fn n} (i : Fin n) (b : Nat) : (s.workers i).pc = .hasBegin b →
      Step s (s.setPc i (.hasRange b (beginIdx n s.numTasks (i + 1))))
  | callFunction {s : State Fn n} (i : Fin n) (b e : Nat) (f : Fn) :
      (s.workers i).pc = .hasRange b e → b < e → s.function = some f →
      Step s (s.setWorker i
        { s.workers i with
          pc := .calling f b e
          begun := (s.workers i).begun ++ [(f, b, e)] })
  | skip {s : State Fn n} (i : Fin n) (b e : Nat) : (s.workers i).pc = .hasRange b e → ¬ b < e →
      Step s (s.setPc i .called)
  | functionReturns {s : State Fn n} (i : Fin n) (f : Fn) (b e : Nat) :
      (s.workers i).pc = .calling f b e →
      Step s (s.setWorker i
        { s.workers i with
          pc := .called
          ended := (s.workers i).ended ++ [(f, b, e)] })
  | finish {s : State Fn n} (i : Fin n) : (s.workers i).pc = .called →
      Step s { s.setPc i .toNotify with finished := Function.update s.finished i true }
  | notifyDone {s : State Fn n} (i : Fin n) : (s.workers i).pc = .toNotify →
      Step s ((s.notifyCaller i).setPc i .entering)

/-- A pool just constructed; `num_tasks` is uninitialised. -/
def init (numTasks : Nat) : State Fn n := { numTasks := numTasks }

def Reachable (s : State Fn n) : Prop := ∃ m, Relation.ReflTransGen Step (init m) s

/-! ## The invariant -/

/-- What thread `i` has to run for the call `(function, num_tasks)`. -/
def rangeOf (n i : Nat) (c : Fn × Nat) : Option (Fn × Nat × Nat) :=
  if beginIdx n c.2 i < beginIdx n c.2 (i + 1) then
    some (c.1, beginIdx n c.2 i, beginIdx n c.2 (i + 1))
  else none

/-- What thread `i` has to run for the calls `history`. -/
def ranges (n i : Nat) (history : List (Fn × Nat)) : List (Fn × Nat × Nat) :=
  history.filterMap (rangeOf n i)

theorem ranges_append (n i : Nat) (prev : List (Fn × Nat)) (c : Fn × Nat) :
    ranges n i (prev ++ [c]) = ranges n i prev ++ (rangeOf n i c).toList := by
  cases h : rangeOf n i c <;> simp [ranges, h]

namespace CallerPc

/-- The current call has set the flags of thread `i`. -/
def armed : CallerPc → Nat → Bool
  | .arming j, i => i < j
  | .notifying _, _ | .waiting _, _ | .asleep _, _ => true
  | _, _ => false

/-- The current call has yet to set the flags of thread `i`. -/
def unarmed : CallerPc → Nat → Bool
  | .wroteFunction _, _ => true
  | .arming j, i => j ≤ i
  | _, _ => false

/-- The current call has yet to notify thread `i`. -/
def owesNotify : CallerPc → Nat → Bool
  | .arming _, _ => true
  | .notifying j, i => j ≤ i
  | _, _ => false

/-- The caller has passed its wait for thread `i`. -/
def passed : CallerPc → Nat → Bool
  | .waiting j, i | .asleep j, i => i < j
  | _, _ => false

def inCall : CallerPc → Bool
  | .idle | .stopping _ | .stopNotifying _ => false
  | _ => true

def stops : CallerPc → Bool
  | .stopping _ | .stopNotifying _ => true
  | _ => false

end CallerPc

/-- The progress of thread `i` with its range of the call `c`, after the calls `prev`. -/
def WorkingOn (n i : Nat) (prev : List (Fn × Nat)) (c : Fn × Nat) (x : Worker Fn) : Prop :=
  match x.pc with
  | .entering | .asleep | .reading | .toNotify =>
    x.begun = ranges n i prev ∧ x.ended = ranges n i prev
  | .hasBegin b => b = beginIdx n c.2 i ∧ x.begun = ranges n i prev ∧ x.ended = ranges n i prev
  | .hasRange b e =>
    b = beginIdx n c.2 i ∧ e = beginIdx n c.2 (i + 1) ∧
      x.begun = ranges n i prev ∧ x.ended = ranges n i prev
  | .calling f b e =>
    rangeOf n i c = some (f, b, e) ∧ x.begun = ranges n i (prev ++ [c]) ∧ x.ended = ranges n i prev
  | .called => x.begun = ranges n i (prev ++ [c]) ∧ x.ended = ranges n i (prev ++ [c])
  | .exited => False

/-- The progress of a thread whose flags say that it has work of the last call of `history`. -/
def Working (n i : Nat) (history : List (Fn × Nat)) (x : Worker Fn) : Prop :=
  ∃ prev c, history = prev ++ [c] ∧ WorkingOn n i prev c x

/-- What holds between thread `i`, its flags and the place of the caller. -/
structure WorkerOk (n i : Nat) (c : CallerPc) (history : List (Fn × Nat)) (hasFn fin destr : Bool)
    (x : Worker Fn) : Prop where
  done : (hasFn && !fin) = false → x.pc.holdsMutex = false ∧
    x.begun = ranges n i (if c.unarmed i then history.dropLast else history) ∧
    x.ended = ranges n i (if c.unarmed i then history.dropLast else history)
  working : (hasFn && !fin) = true → c.armed i = true ∧ Working n i history x
  armed : c.armed i = true → hasFn = true
  passed : c.passed i = true → fin = true
  asleep : x.pc = .asleep → (hasFn && !fin) = true → c.owesNotify i = true
  callerAsleep : c = .asleep i → fin = true → x.pc = .toNotify
  exited : destr = true ∨ x.pc = .exited → c.stops = true

/-- `num_tasks` of the last call, which may not be written yet. -/
def State.nextNumTasks (s : State Fn n) : Nat :=
  match s.caller with
  | .wroteFunction m => m
  | _ => s.numTasks

theorem State.nextNumTasks_eq {s : State Fn n} (hc : ∀ m, s.caller ≠ .wroteFunction m) :
    s.nextNumTasks = s.numTasks := by
  unfold nextNumTasks
  split
  · next h => exact absurd h (hc _)
  · rfl

structure Inv (s : State Fn n) : Prop where
  workers : ∀ i : Fin n, WorkerOk n i s.caller s.history (s.hasFunction i) (s.finished i)
    (s.destructed i) (s.workers i)
  function : s.function = s.history.getLast?.map Prod.fst
  numTasks : ∀ c, s.history.getLast? = some c → s.nextNumTasks = c.2
  inCall : s.caller.inCall = true → s.history ≠ []

theorem inv_init (m : Nat) : Inv (init m : State Fn n) := by
  refine ⟨fun i => ⟨fun _ => ?_, ?_, ?_, ?_, ?_, ?_, ?_⟩, rfl, ?_, ?_⟩
  all_goals simp [init, WorkerPc.holdsMutex, ranges, CallerPc.armed, CallerPc.passed,
    CallerPc.inCall]

/-- The caller moves on, and this thread and its flags stay. -/
theorem WorkerOk.setCaller {i : Nat} {c c' : CallerPc} {history : List (Fn × Nat)}
    {hasFn fin destr : Bool} {x : Worker Fn} (h : WorkerOk n i c history hasFn fin destr x)
    (hunarmed : c'.unarmed i = c.unarmed i)
    (hworking : (hasFn && !fin) = true → c.armed i = true → c'.armed i = true)
    (harmed : c'.armed i = true → c.armed i = true)
    (hpassed : c'.passed i = true → c.passed i = true ∨ fin = true)
    (hasleep : x.pc = .asleep → (hasFn && !fin) = true → c.owesNotify i = true →
      c'.owesNotify i = true)
    (hcaller : c' = .asleep i → fin = false)
    (hstops : c.stops = true → c'.stops = true) :
    WorkerOk n i c' history hasFn fin destr x where
  done hp := by
    rw [hunarmed]
    exact h.done hp
  working hp := ⟨hworking hp (h.working hp).1, (h.working hp).2⟩
  armed ha := h.armed (harmed ha)
  passed hp := (hpassed hp).elim h.passed id
  asleep hs hp := hasleep hs hp (h.asleep hs hp)
  callerAsleep hc hf := by
    rw [hcaller hc] at hf
    cases hf
  exited hx := hstops (h.exited hx)

/-- The caller alone moves. -/
theorem Inv.setCaller {s : State Fn n} {c : CallerPc} (h : Inv s)
    (hw : ∀ i : Fin n, WorkerOk n i c s.history (s.hasFunction i) (s.finished i)
      (s.destructed i) (s.workers i))
    (hnum : (s.setCaller c).nextNumTasks = s.nextNumTasks)
    (hin : c.inCall = true → s.caller.inCall = true) : Inv (s.setCaller c) :=
  ⟨hw, h.function, fun c hc => hnum.trans (h.numTasks c hc), fun hc => h.inCall (hin hc)⟩

/-- A thread alone moves. -/
theorem Inv.setWorker {s : State Fn n} (h : Inv s) {i : Fin n} {x : Worker Fn}
    (hx : WorkerOk n i s.caller s.history (s.hasFunction i) (s.finished i) (s.destructed i) x) :
    Inv (s.setWorker i x) := by
  refine ⟨fun j => ?_, h.function, h.numTasks, h.inCall⟩
  by_cases hj : j = i
  · subst hj
    simpa [State.setWorker] using hx
  · simpa [State.setWorker, hj] using h.workers j

/-- A thread with work moves on to another place where it has work. -/
theorem WorkerOk.work {i : Nat} {c : CallerPc} {history : List (Fn × Nat)}
    {hasFn fin destr : Bool} {x x' : Worker Fn} (h : WorkerOk n i c history hasFn fin destr x)
    (hp : (hasFn && !fin) = true) (hw : Working n i history x') (hs : x'.pc ≠ .asleep) :
    WorkerOk n i c history hasFn fin destr x' where
  done hp' := by
    rw [hp] at hp'
    cases hp'
  working _ := ⟨(h.working hp).1, hw⟩
  armed := h.armed
  passed := h.passed
  asleep hx _ := absurd hx hs
  callerAsleep _ hf := by simp [hf] at hp
  exited hx := by
    rcases hx with hx | hx
    · exact h.exited (.inl hx)
    · obtain ⟨_, _, _, hw⟩ := hw
      simp [WorkingOn, hx] at hw

/-- A thread at rest moves to another resting place. -/
theorem WorkerOk.rest {i : Nat} {c : CallerPc} {history : List (Fn × Nat)}
    {hasFn fin destr : Bool} {x : Worker Fn} (h : WorkerOk n i c history hasFn fin destr x)
    (hx : x.pc = .entering ∨ x.pc = .asleep ∨ x.pc = .toNotify) {pc : WorkerPc Fn}
    (hpc : pc = .entering ∨ pc = .asleep) (hc : x.pc = .toNotify → c ≠ .asleep i)
    (hs : pc = .asleep → (hasFn && !fin) = false) :
    WorkerOk n i c history hasFn fin destr { x with pc := pc } where
  done hp := ⟨by rcases hpc with rfl | rfl <;> rfl, (h.done hp).2⟩
  working hp := by
    obtain ⟨ha, prev, c', hh, hw⟩ := h.working hp
    refine ⟨ha, prev, c', hh, ?_⟩
    rcases hx with hx | hx | hx <;> rcases hpc with rfl | rfl <;> simpa [WorkingOn, hx] using hw
  armed := h.armed
  passed := h.passed
  asleep hpc' hp := by
    rw [hs hpc'] at hp
    cases hp
  callerAsleep hca hf := absurd hca (hc (h.callerAsleep hca hf))
  exited hd := by
    rcases hd with hd | hd
    · exact h.exited (.inl hd)
    · rcases hpc with rfl | rfl <;> cases hd

/-- A thread that holds its mutex has work of the last call, whose data are in place. -/
theorem Inv.holding {s : State Fn n} (h : Inv s) {i : Fin n}
    (hm : (s.workers i).pc.holdsMutex = true) :
    s.pending i = true ∧ ∃ prev c, s.history = prev ++ [c] ∧
      WorkingOn n i prev c (s.workers i) ∧ s.function = some c.1 ∧ s.numTasks = c.2 := by
  have hp : s.pending i = true := by
    by_contra hp
    have hf := ((h.workers i).done (by simpa [State.pending] using hp)).1
    rw [hm] at hf
    cases hf
  obtain ⟨ha, prev, c, hh, hw⟩ := (h.workers i).working hp
  have hlast : s.history.getLast? = some c := by simp [hh]
  have hnum : s.nextNumTasks = s.numTasks := State.nextNumTasks_eq fun m hc => by
    rw [hc] at ha
    cases ha
  exact ⟨hp, prev, c, hh, hw, by rw [h.function, hlast]; rfl, hnum ▸ h.numTasks c hlast⟩

/-- A step of a thread that holds its mutex. -/
theorem Inv.work {s : State Fn n} (h : Inv s) {i : Fin n} {x : Worker Fn}
    (hm : (s.workers i).pc.holdsMutex = true) (hs : x.pc ≠ .asleep)
    (hw : ∀ prev c, s.function = some c.1 → s.numTasks = c.2 →
      WorkingOn n i prev c (s.workers i) → WorkingOn n i prev c x) : Inv (s.setWorker i x) := by
  obtain ⟨hp, prev, c, hh, hon, hf, hn⟩ := h.holding hm
  exact h.setWorker ((h.workers i).work hp ⟨prev, c, hh, hw prev c hf hn hon⟩ hs)

theorem CallerPc.unarmed_of_armed {c : CallerPc} {i : Nat} (h : c.armed i = true) :
    c.unarmed i = false := by
  cases c <;> simp_all [armed, unarmed]

/-- The thread sets `finished` and unlocks. -/
theorem Inv.finish {s : State Fn n} (h : Inv s) {i : Fin n} (hpc : (s.workers i).pc = .called) :
    Inv { s.setPc i .toNotify with finished := Function.update s.finished i true } := by
  have hm : (s.workers i).pc.holdsMutex = true := by simp [hpc, WorkerPc.holdsMutex]
  obtain ⟨hp, prev, c, hh, hon, -, -⟩ := h.holding hm
  have hw := h.workers i
  have hun := CallerPc.unarmed_of_armed (hw.working hp).1
  refine ⟨fun j => ?_, h.function, h.numTasks, h.inCall⟩
  by_cases hj : j = i
  · subst hj
    simp only [State.setPc, State.setWorker, Function.update_self]
    refine ⟨fun _ => ⟨rfl, ?_⟩, by simp, hw.armed, by simp, by simp, by simp, ?_⟩
    · rw [hun, hh]
      simpa [WorkingOn, hpc] using hon
    · rintro (hd | hd)
      · exact hw.exited (.inl hd)
      · cases hd
  · simpa [State.setPc, State.setWorker, hj] using h.workers j

theorem Inv.notifyWorker {s : State Fn n} (h : Inv s) (i : Fin n) : Inv (s.notifyWorker i) := by
  unfold State.notifyWorker
  split
  · next hpc =>
    exact h.setWorker ((h.workers i).rest (by simp [hpc]) (by simp) (by simp [hpc]) (by simp))
  · exact h

/-- After its notification a thread does not sleep. -/
theorem State.notifyWorker_pc (s : State Fn n) (i : Fin n) :
    ((s.notifyWorker i).workers i).pc ≠ .asleep := by
  unfold State.notifyWorker
  split
  · simp [State.setPc, State.setWorker]
  · next hpc => exact hpc

@[simp] theorem State.notifyWorker_caller (s : State Fn n) (i : Fin n) :
    (s.notifyWorker i).caller = s.caller := by
  unfold State.notifyWorker
  split <;> rfl

/-- The caller sets the flags of thread `i`. -/
theorem Inv.arm {s : State Fn n} (h : Inv s) {i : Fin n} (hc : s.caller = .arming i) :
    Inv { s with
      hasFunction := Function.update s.hasFunction i true
      finished := Function.update s.finished i false
      caller := .arming (i + 1) } := by
  have hne : s.history ≠ [] := h.inCall (by rw [hc]; rfl)
  refine ⟨fun j => ?_, h.function, fun c hl => ?_, fun _ => hne⟩
  · by_cases hj : j = i
    · subst hj
      have hw := h.workers j
      have hrest : (s.hasFunction j && !s.finished j) = false := by
        by_contra hp
        have ha := (hw.working (by simpa using hp)).1
        simp [hc, CallerPc.armed] at ha
      obtain ⟨hm, hlogs⟩ := hw.done hrest
      simp only [hc, CallerPc.unarmed, le_refl, decide_true, if_true] at hlogs
      have hh := (List.dropLast_append_getLast hne).symm
      have hex : (s.workers j).pc ≠ .exited := fun he => by
        simpa [hc, CallerPc.stops] using hw.exited (.inr he)
      simp only [Function.update_self]
      refine ⟨by simp, fun _ => ⟨by simp [CallerPc.armed], _, _, hh, ?_⟩, by simp,
        by simp [CallerPc.passed], by simp [CallerPc.owesNotify], by simp, fun hd => ?_⟩
      · cases hpc : (s.workers j).pc <;> simp [hpc, WorkerPc.holdsMutex] at hm hex <;>
          simpa [WorkingOn, hpc] using hlogs
      · simpa [hc, CallerPc.stops] using hw.exited hd
    · have hji : (j : Nat) ≠ i := fun he => hj (Fin.ext he)
      simp only [Function.update_of_ne hj]
      refine (h.workers j).setCaller ?_ ?_ ?_ ?_ ?_ ?_ ?_ <;>
        simp [hc, CallerPc.unarmed, CallerPc.armed, CallerPc.passed, CallerPc.owesNotify,
          CallerPc.stops] <;> omega
  · have hn := h.numTasks c hl
    simpa [State.nextNumTasks, hc] using hn

/-- The caller moves, and no flag and no thread with it. -/
theorem Inv.moveCaller {s : State Fn n} {c : CallerPc} (h : Inv s)
    (hold : ∀ m, s.caller ≠ .wroteFunction m) (hnew : ∀ m, c ≠ .wroteFunction m)
    (hin : c.inCall = true → s.caller.inCall = true)
    (hunarmed : ∀ i < n, c.unarmed i = s.caller.unarmed i)
    (hworking : ∀ i : Fin n, s.pending i = true → s.caller.armed i = true → c.armed i = true)
    (harmed : ∀ i < n, c.armed i = true → s.caller.armed i = true)
    (hpassed : ∀ i : Fin n, c.passed i = true → s.caller.passed i = true ∨ s.finished i = true)
    (hasleep : ∀ i : Fin n, (s.workers i).pc = .asleep → s.caller.owesNotify i = true →
      c.owesNotify i = true)
    (hcaller : ∀ i : Fin n, c = .asleep i → s.finished i = false)
    (hstops : s.caller.stops = true → c.stops = true) : Inv (s.setCaller c) := by
  refine h.setCaller (fun i => (h.workers i).setCaller (hunarmed i i.2) (hworking i)
    (harmed i i.2) (hpassed i) (fun hs _ => hasleep i hs) (hcaller i) hstops) ?_ hin
  rw [State.nextNumTasks_eq hold, State.nextNumTasks_eq hnew]
  rfl

theorem Inv.notifyCaller {s : State Fn n} (h : Inv s) (i : Fin n) : Inv (s.notifyCaller i) := by
  unfold State.notifyCaller
  split
  · next hc =>
    apply h.moveCaller <;> simp [hc, CallerPc.inCall, CallerPc.unarmed, CallerPc.armed,
      CallerPc.passed, CallerPc.owesNotify, CallerPc.stops]
    exact fun j hj => .inl hj
  · exact h

theorem State.notifyCaller_caller (s : State Fn n) (i : Fin n) :
    (s.notifyCaller i).caller ≠ .asleep i := by
  unfold State.notifyCaller
  split
  · simp [State.setCaller]
  · next hc => exact hc

@[simp] theorem State.notifyCaller_workers (s : State Fn n) (i : Fin n) :
    (s.notifyCaller i).workers = s.workers := by
  unfold State.notifyCaller
  split <;> rfl

/-- The caller publishes a call: every thread is done with the calls before it. -/
theorem Inv.call {s : State Fn n} (h : Inv s) (hc : s.caller = .idle) (f : Fn) (m : Nat) :
    Inv { s with
      function := some f
      caller := .wroteFunction m
      history := s.history ++ [(f, m)] } := by
  refine ⟨fun i => ?_, by simp, fun c hl => ?_, fun _ => by simp⟩
  · have hw := h.workers i
    have hrest : (s.hasFunction i && !s.finished i) = false := by
      by_contra hp
      have ha := (hw.working (by simpa using hp)).1
      simp [hc, CallerPc.armed] at ha
    refine ⟨fun _ => ?_, by simp [hrest], by simp [CallerPc.armed], by simp [CallerPc.passed],
      by simp [hrest], by simp, fun hd => ?_⟩
    · simpa [hc, CallerPc.unarmed] using hw.done hrest
    · simpa [hc, CallerPc.stops] using hw.exited hd
  · have hc' : c = (f, m) := by simpa using hl.symm
    rw [hc']
    rfl

theorem Inv.writeNumTasks {s : State Fn n} (h : Inv s) {m : Nat}
    (hc : s.caller = .wroteFunction m) :
    Inv { s with numTasks := m, caller := .arming 0 } := by
  refine ⟨fun i => ?_, h.function, fun c hl => ?_, fun _ => h.inCall (by rw [hc]; rfl)⟩
  · apply (h.workers i).setCaller <;> simp [hc, CallerPc.unarmed, CallerPc.armed,
      CallerPc.passed, CallerPc.owesNotify, CallerPc.stops]
  · have hn := h.numTasks c hl
    simpa [State.nextNumTasks, hc] using hn

theorem Inv.destruct {s : State Fn n} (h : Inv s) {i : Fin n} (hc : s.caller = .stopping i) :
    Inv { s with
      destructed := Function.update s.destructed i true
      caller := .stopping (i + 1) } := by
  refine ⟨fun j => ?_, h.function, fun c hl => ?_, by simp [CallerPc.inCall]⟩
  · have hw : WorkerOk n j (.stopping (i + 1)) s.history (s.hasFunction j) (s.finished j)
        (s.destructed j) (s.workers j) := by
      apply (h.workers j).setCaller <;> simp [hc, CallerPc.unarmed, CallerPc.armed,
        CallerPc.passed, CallerPc.owesNotify, CallerPc.stops]
    exact { hw with exited := fun _ => rfl }
  · have hn := h.numTasks c hl
    simpa [State.nextNumTasks, hc] using hn

theorem Inv.exit {s : State Fn n} (h : Inv s) {i : Fin n} (hd : s.destructed i = true) :
    Inv (s.setPc i .exited) := by
  have hw := h.workers i
  have hstops := hw.exited (.inl hd)
  have hrest : (s.hasFunction i && !s.finished i) = false := by
    by_contra hp
    have ha := (hw.working (by simpa using hp)).1
    cases hc : s.caller <;> simp [hc, CallerPc.armed, CallerPc.stops] at ha hstops
  refine h.setWorker ⟨fun hp => ⟨rfl, (hw.done hp).2⟩, by simp [hrest], hw.armed, hw.passed,
    by simp, fun hc => ?_, fun _ => hstops⟩
  simp [hc, CallerPc.stops] at hstops

theorem inv_step {s s' : State Fn n} (h : Inv s) (hs : Step s s') : Inv s' := by
  cases hs with
  | call f m hc => exact h.call hc f m
  | writeNumTasks m hc => exact h.writeNumTasks hc
  | arm i hc hm => exact h.arm hc
  | armed hc =>
    apply h.moveCaller <;> simp [hc, CallerPc.inCall, CallerPc.unarmed, CallerPc.armed,
      CallerPc.passed, CallerPc.owesNotify, CallerPc.stops]
  | notify i hc =>
    have hn := State.notifyWorker_pc s i
    apply (h.notifyWorker i).moveCaller <;> simp [hc, CallerPc.inCall, CallerPc.unarmed,
      CallerPc.armed, CallerPc.passed, CallerPc.owesNotify, CallerPc.stops]
    -- Only thread `i` is owed no notification any more.
    intro j hj hij
    have : j ≠ i := by
      rintro rfl
      exact hn hj
    omega
  | notified hc =>
    apply h.moveCaller <;> simp [hc, CallerPc.inCall, CallerPc.unarmed, CallerPc.armed,
      CallerPc.passed, CallerPc.owesNotify, CallerPc.stops]
  | seeFinished i hc hm hf =>
    apply h.moveCaller <;> simp [hc, CallerPc.inCall, CallerPc.unarmed, CallerPc.armed,
      CallerPc.passed, CallerPc.owesNotify, CallerPc.stops]
    intro j hj
    rcases lt_or_eq_of_le hj with hlt | rfl
    · exact .inl hlt
    · exact .inr hf
  | callerSleep i hc hm hf =>
    apply h.moveCaller <;> simp [hc, CallerPc.inCall, CallerPc.unarmed, CallerPc.armed,
      CallerPc.passed, CallerPc.owesNotify, CallerPc.stops]
    · exact fun j hj => .inl hj
    · exact fun j hj => Fin.ext hj ▸ hf
  | spuriousCaller i hc =>
    apply h.moveCaller <;> simp [hc, CallerPc.inCall, CallerPc.unarmed, CallerPc.armed,
      CallerPc.passed, CallerPc.owesNotify, CallerPc.stops]
    exact fun j hj => .inl hj
  | callReturns hc =>
    have hdone : ∀ i : Fin n, s.finished i = true := fun i =>
      (h.workers i).passed (by simp [hc, CallerPc.passed])
    apply h.moveCaller <;> simp [hc, CallerPc.inCall, CallerPc.unarmed, CallerPc.armed,
      CallerPc.passed, CallerPc.owesNotify, CallerPc.stops, State.pending, hdone]
  | destroy hc =>
    apply h.moveCaller <;> simp [hc, CallerPc.inCall, CallerPc.unarmed, CallerPc.armed,
      CallerPc.passed, CallerPc.owesNotify, CallerPc.stops]
  | destruct i hc hm => exact h.destruct hc
  | destructed hc =>
    apply h.moveCaller <;> simp [hc, CallerPc.inCall, CallerPc.unarmed, CallerPc.armed,
      CallerPc.passed, CallerPc.owesNotify, CallerPc.stops]
  | notifyDestructed i hc =>
    apply (h.notifyWorker i).moveCaller <;> simp [hc, CallerPc.inCall, CallerPc.unarmed,
      CallerPc.armed, CallerPc.passed, CallerPc.owesNotify, CallerPc.stops]
  | exit i hpc hd => exact h.exit hd
  | begin i hpc hd hp =>
    obtain ⟨-, prev, c, hh, hon⟩ := (h.workers i).working hp
    refine h.setWorker ((h.workers i).work hp ⟨prev, c, hh, ?_⟩ (by simp))
    simpa [WorkingOn, hpc] using hon
  | sleep i hpc hd hp =>
    exact h.setWorker ((h.workers i).rest (.inl hpc) (.inr rfl) (by simp [hpc]) (fun _ => hp))
  | spurious i hpc =>
    exact h.setWorker ((h.workers i).rest (.inr (.inl hpc)) (.inl rfl) (by simp [hpc]) (by simp))
  | readBegin i hpc =>
    apply h.work (by simp [hpc, WorkerPc.holdsMutex]) (by simp)
    intro prev c _ hn hon
    simpa [WorkingOn, hpc, hn] using hon
  | readEnd i b hpc =>
    apply h.work (by simp [hpc, WorkerPc.holdsMutex]) (by simp)
    intro prev c _ hn hon
    simpa [WorkingOn, hpc, hn] using hon
  | callFunction i b e f hpc hlt hf =>
    apply h.work (by simp [hpc, WorkerPc.holdsMutex]) (by simp)
    intro prev c hf' _ hon
    have hfc : f = c.1 := Option.some.inj (hf.symm.trans hf')
    simp only [WorkingOn, hpc] at hon
    obtain ⟨rfl, rfl, hb, he⟩ := hon
    have hr : rangeOf n i c = some (f, beginIdx n c.2 i, beginIdx n c.2 (i + 1)) := by
      unfold rangeOf
      rw [if_pos hlt, hfc]
    exact ⟨hr, by simp [ranges_append, hb, hr], he⟩
  | skip i b e hpc hlt =>
    apply h.work (by simp [hpc, WorkerPc.holdsMutex]) (by simp)
    intro prev c _ _ hon
    simp only [WorkingOn, hpc] at hon
    obtain ⟨rfl, rfl, hb, he⟩ := hon
    have hr : rangeOf n i c = none := by rw [rangeOf, if_neg hlt]
    exact ⟨by simp [ranges_append, hb, hr], by simp [ranges_append, he, hr]⟩
  | functionReturns i f b e hpc =>
    apply h.work (by simp [hpc, WorkerPc.holdsMutex]) (by simp)
    intro prev c _ _ hon
    simp only [WorkingOn, hpc] at hon
    obtain ⟨hr, hb, he⟩ := hon
    exact ⟨hb, by simp [ranges_append, he, hr]⟩
  | finish i hpc => exact h.finish hpc
  | notifyDone i hpc =>
    have hn := h.notifyCaller i
    refine hn.setWorker ((hn.workers i).rest ?_ (.inl rfl) ?_ (by simp))
    · simp [hpc]
    · exact fun _ => State.notifyCaller_caller s i

theorem inv_of_reachable {s : State Fn n} (h : Reachable s) : Inv s := by
  obtain ⟨m, hr⟩ := h
  induction hr with
  | refl => exact inv_init m
  | tail _ hs ih => exact inv_step ih hs

/-! ## What a run guarantees -/

/-- What holds in every state of a pool that serves one call of `run` after another. -/
structure RunOk (s : State Fn n) : Prop where
  splits : ∀ m, Splits n m
  /-- When no call is in progress every thread has run its range of every call, once. -/
  returned : s.caller = .idle → ∀ i,
    (s.workers i).begun = ranges n i s.history ∧ (s.workers i).ended = ranges n i s.history
  /-- A thread invokes its ranges of the calls in order and nothing else, one at a time. -/
  invoked : ∀ i, (s.workers i).ended <+: (s.workers i).begun ∧
    (s.workers i).begun <+: ranges n i s.history ∧
    (s.workers i).begun.length ≤ (s.workers i).ended.length + 1
  neverBothAsleep : ∀ i : Fin n, ¬ (s.caller = .asleep i ∧ (s.workers i).pc = .asleep)

theorem ranges_prefix (n i : Nat) {prev history : List (Fn × Nat)} (h : prev <+: history) :
    ranges n i prev <+: ranges n i history := by
  obtain ⟨rest, rfl⟩ := h
  simp [ranges]

theorem WorkingOn.invoked {i : Nat} {prev : List (Fn × Nat)} {c : Fn × Nat} {x : Worker Fn}
    (h : WorkingOn n i prev c x) :
    x.ended <+: x.begun ∧ x.begun <+: ranges n i (prev ++ [c]) ∧
      x.begun.length ≤ x.ended.length + 1 := by
  have hpre : ranges n i prev <+: ranges n i (prev ++ [c]) :=
    ranges_prefix n i (List.prefix_append prev [c])
  have hrest : x.begun = ranges n i prev → x.ended = ranges n i prev →
      x.ended <+: x.begun ∧ x.begun <+: ranges n i (prev ++ [c]) ∧
        x.begun.length ≤ x.ended.length + 1 := fun hb he => by
    rw [hb, he]
    exact ⟨List.prefix_rfl, hpre, by omega⟩
  unfold WorkingOn at h
  split at h
  · exact hrest h.1 h.2
  · exact hrest h.1 h.2
  · exact hrest h.1 h.2
  · exact hrest h.1 h.2
  · exact hrest h.2.1 h.2.2
  · exact hrest h.2.2.1 h.2.2.2
  · obtain ⟨hr, hb, he⟩ := h
    rw [hb, he]
    refine ⟨hpre, List.prefix_rfl, ?_⟩
    simp [ranges_append, hr]
  · rw [h.1, h.2]
    exact ⟨List.prefix_rfl, List.prefix_rfl, by omega⟩
  · exact h.elim

/-- `run` executes every task index exactly once, returns only afterwards, and never sleeps on a
condition variable together with its thread. -/
theorem run_ok {s : State Fn n} (hn : 0 < n) (hr : Reachable s) : RunOk s := by
  have h := inv_of_reachable hr
  refine ⟨splits hn, fun hc i => ?_, fun i => ?_, fun i hboth => ?_⟩
  · have hw := h.workers i
    have hrest : (s.hasFunction i && !s.finished i) = false := by
      by_contra hp
      have ha := (hw.working (by simpa using hp)).1
      simp [hc, CallerPc.armed] at ha
    simpa [hc, CallerPc.unarmed] using (hw.done hrest).2
  · have hw := h.workers i
    by_cases hp : (s.hasFunction i && !s.finished i) = true
    · obtain ⟨-, prev, c, hh, hon⟩ := hw.working hp
      rw [hh]
      exact hon.invoked
    · obtain ⟨-, hb, he⟩ := hw.done (by simpa using hp)
      rw [hb, he]
      refine ⟨List.prefix_rfl, ranges_prefix n i ?_, by omega⟩
      split
      · exact List.dropLast_prefix _
      · exact List.prefix_rfl
  · obtain ⟨hc, hs⟩ := hboth
    have hw := h.workers i
    have hf : s.hasFunction i = true := hw.armed (by rw [hc]; rfl)
    cases hfin : s.finished i with
    | false =>
      have ho := hw.asleep hs (by simp [hf, hfin])
      simp [hc, CallerPc.owesNotify] at ho
    | true =>
      have ht := hw.callerAsleep hc hfin
      rw [hs] at ht
      cases ht

/-- Two threads run a call of three tasks and a call of one task, of which the second thread gets
none. The caller of the first sleeps until the second thread wakes it. -/
theorem run_ok_two_calls :
    ∃ s : State Bool 2, s.caller = .idle ∧ s.history = [(true, 3), (false, 1)] ∧
      (s.workers 0).ended = [(true, 0, 2), (false, 0, 1)] ∧ (s.workers 1).ended = [(true, 2, 3)] ∧
      Reachable s ∧ RunOk s := by
  have run : ∃ s : State Bool 2, s.caller = .idle ∧ s.history = [(true, 3), (false, 1)] ∧
      (s.workers 0).ended = [(true, 0, 2), (false, 0, 1)] ∧
      (s.workers 1).ended = [(true, 2, 3)] ∧ Reachable s := by
    have armed := (((((Relation.ReflTransGen.single
      (Step.sleep (s := (init 0 : State Bool 2)) 1 rfl rfl rfl)).tail (.call true 3 rfl)).tail
      (.writeNumTasks 3 rfl)).tail (.arm 0 rfl rfl)).tail (.arm 1 rfl rfl)).tail (.armed rfl)
    have begun := (((((armed.tail (.begin 0 rfl rfl rfl)).tail (.notify 0 rfl)).tail
      (.notify 1 rfl)).tail (.notified rfl)).tail (.begin 1 rfl rfl rfl)).tail (.readBegin 1 rfl)
    have called := ((((begun.tail (.readBegin 0 rfl)).tail (.readEnd 0 0 rfl)).tail
      (.callFunction 0 0 2 true rfl (by decide) rfl)).tail (.readEnd 1 2 rfl)).tail
      (.callFunction 1 2 3 true rfl (by decide) rfl)
    have slept := ((((called.tail (.functionReturns 0 true 0 2 rfl)).tail (.finish 0 rfl)).tail
      (.notifyDone 0 rfl)).tail (.seeFinished 0 rfl rfl rfl)).tail (.functionReturns 1 true 2 3 rfl)
    have returned := (((slept.tail (.finish 1 rfl)).tail (.notifyDone 1 rfl)).tail
      (.seeFinished 1 rfl rfl rfl)).tail (.callReturns rfl)
    have armed' := ((((returned.tail (.call false 1 rfl)).tail (.writeNumTasks 1 rfl)).tail
      (.arm 0 rfl rfl)).tail (.arm 1 rfl rfl)).tail (.armed rfl)
    have begun' := ((((armed'.tail (.notify 0 rfl)).tail (.notify 1 rfl)).tail
      (.notified rfl)).tail (.begin 1 rfl rfl rfl)).tail (.begin 0 rfl rfl rfl)
    have skipped := ((((begun'.tail (.readBegin 1 rfl)).tail (.readEnd 1 1 rfl)).tail
      (.skip 1 1 1 rfl (by decide))).tail (.finish 1 rfl)).tail (.notifyDone 1 rfl)
    have called' := ((((skipped.tail (.readBegin 0 rfl)).tail (.readEnd 0 0 rfl)).tail
      (.callFunction 0 0 1 false rfl (by decide) rfl)).tail
      (.functionReturns 0 false 0 1 rfl)).tail (.finish 0 rfl)
    exact ⟨_, rfl, rfl, rfl, rfl, 0, (((called'.tail (.notifyDone 0 rfl)).tail
      (.seeFinished 0 rfl rfl rfl)).tail (.seeFinished 1 rfl rfl rfl)).tail (.callReturns rfl)⟩
  obtain ⟨s, hc, hh, h0, h1, hr⟩ := run
  exact ⟨s, hc, hh, h0, h1, hr, run_ok (by decide) hr⟩

end HashJoin.FilterThreadPool
