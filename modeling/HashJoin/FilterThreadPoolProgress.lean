import HashJoin.FilterThreadPool
import HashJoin.Lib.Owners
import HashJoin.Lib.Progress

/-!
# Calls of the filter thread pool return

`run` waits for one thread after another, on the condition variable on which that thread waits for
work. Each step that is no spurious wakeup brings the pool nearer to a state where every thread
sleeps and no call is in progress, or where every thread has left its loop and can be joined.
-/

namespace HashJoin.FilterThreadPool

variable {Fn : Type} {n : Nat}

/-- The caller enters `run` or the destructor. -/
def Starts (s s' : State Fn n) : Prop := s.caller = .idle ∧ s'.caller ≠ .idle

/-- A wait wakes up without a notification. -/
def Wakes (s s' : State Fn n) : Prop :=
  (∃ i, s.caller = .asleep i ∧ s'.caller = .waiting i ∧ s'.workers = s.workers) ∨
    ((∃ i, (s.workers i).pc = .asleep ∧ (s'.workers i).pc = .entering) ∧ s'.caller = s.caller)

/-- A step of what is in progress. -/
structure Works (s s' : State Fn n) : Prop where
  step : Step s s'
  notStarts : ¬ Starts s s'
  notWakes : ¬ Wakes s s'

/-- A spurious wakeup. -/
structure Disturbs (s s' : State Fn n) : Prop where
  step : Step s s'
  wakes : Wakes s s'

theorem Wakes.not_starts {s s' : State Fn n} (h : Wakes s s') : ¬ Starts s s' := by
  rintro ⟨hidle, hne⟩
  rcases h with ⟨i, hasleep, -⟩ | ⟨-, hc⟩
  · rw [hidle] at hasleep
    cases hasleep
  · exact hne (hc.trans hidle)

@[simp] theorem State.notifyWorker_history (s : State Fn n) (i : Fin n) :
    (s.notifyWorker i).history = s.history := by
  unfold State.notifyWorker
  split <;> rfl

@[simp] theorem State.notifyCaller_history (s : State Fn n) (i : Fin n) :
    (s.notifyCaller i).history = s.history := by
  unfold State.notifyCaller
  split <;> rfl

theorem State.notifyCaller_stops (s : State Fn n) (i : Fin n) :
    (s.notifyCaller i).caller.stops = s.caller.stops := by
  unfold State.notifyCaller
  split
  · next hc => rw [hc]; rfl
  · rfl

/-- Only a call is added to the history, and only the destructor stops the threads. -/
theorem step_same {s s' : State Fn n} (hs : Step s s') (hstarts : ¬ Starts s s') :
    s'.history = s.history ∧ s'.caller.stops = s.caller.stops := by
  cases hs with
  | call f m hc => exact absurd ⟨hc, by simp⟩ hstarts
  | destroy hc => exact absurd ⟨hc, by simp [State.setCaller]⟩ hstarts
  | notify i hc => exact ⟨s.notifyWorker_history i, by rw [hc]; rfl⟩
  | notifyDestructed i hc => exact ⟨s.notifyWorker_history i, by rw [hc]; rfl⟩
  | notifyDone i hpc => exact ⟨s.notifyCaller_history i, s.notifyCaller_stops i⟩
  | writeNumTasks m hc => exact ⟨rfl, by rw [hc]; rfl⟩
  | arm i hc => exact ⟨rfl, by rw [hc]; rfl⟩
  | armed hc => exact ⟨rfl, by rw [hc]; rfl⟩
  | notified hc => exact ⟨rfl, by rw [hc]; rfl⟩
  | seeFinished i hc => exact ⟨rfl, by rw [hc]; rfl⟩
  | callerSleep i hc => exact ⟨rfl, by rw [hc]; rfl⟩
  | spuriousCaller i hc => exact ⟨rfl, by rw [hc]; rfl⟩
  | callReturns hc => exact ⟨rfl, by rw [hc]; rfl⟩
  | destruct i hc => exact ⟨rfl, by rw [hc]; rfl⟩
  | destructed hc => exact ⟨rfl, by rw [hc]; rfl⟩
  | _ => exact ⟨rfl, rfl⟩

/-! ## The potential -/

def WorkerPc.weight : WorkerPc Fn → Nat
  | .asleep | .exited => 0
  | .entering => 1
  | .toNotify => 3
  | .called => 4
  | .calling _ _ _ => 5
  | .hasRange _ _ => 6
  | .hasBegin _ => 7
  | .reading => 8

/-- The steps that thread `i` can take before it sleeps. With work that it has not begun it takes
a turn more. -/
def State.weight (s : State Fn n) (i : Fin n) : Nat :=
  (s.workers i).pc.weight + if s.pending i && !(s.workers i).pc.holdsMutex then 8 else 0

def CallerPc.weight (n : Nat) : CallerPc → Nat
  | .idle => 0
  | .wroteFunction _ => 13 * n + 5
  | .arming i => 9 * (n - i) + (4 * n + 4)
  | .notifying i => 2 * (n - i) + (2 * n + 3)
  | .waiting i => 2 * (n - i) + 2
  | .asleep i => 2 * (n - i) + 1
  | .stopping i => (n - i) + (2 * n + 1)
  | .stopNotifying i => 2 * (n - i)

def State.potential (s : State Fn n) : Nat := s.caller.weight n + ∑ i, s.weight i

/-- A step of the caller and of thread `i`. -/
theorem State.potential_move {s s' : State Fn n} {i : Fin n}
    (hoff : ∀ j ≠ i, s'.weight j = s.weight j) :
    s'.potential + (s.caller.weight n + s.weight i) =
      s.potential + (s'.caller.weight n + s'.weight i) := by
  have hsum := Owners.sum_update Finset.univ s.weight id (Finset.mem_univ i) (s'.weight i)
  have hupdate : Function.update s.weight i (s'.weight i) = s'.weight := by
    funext j
    by_cases hj : j = i
    · rw [hj, Function.update_self]
    · rw [Function.update_of_ne hj, hoff j hj]
  rw [hupdate] at hsum
  simp only [id] at hsum
  unfold potential
  omega

theorem State.move_lt {s s' : State Fn n} (i : Fin n) (hoff : ∀ j ≠ i, s'.weight j = s.weight j)
    (hlt : s'.caller.weight n + s'.weight i < s.caller.weight n + s.weight i) :
    s'.potential < s.potential := by
  have hmove := potential_move hoff
  omega

/-- The caller alone moves. -/
theorem State.potential_caller {s s' : State Fn n} (hw : s'.weight = s.weight) :
    s'.potential + s.caller.weight n = s.potential + s'.caller.weight n := by
  unfold potential
  rw [hw]
  omega

theorem State.caller_lt {s s' : State Fn n} (hw : s'.weight = s.weight)
    (hlt : s'.caller.weight n < s.caller.weight n) : s'.potential < s.potential := by
  have hmove := potential_caller hw
  omega

/-- A thread alone moves. -/
theorem State.potential_setWorker (s : State Fn n) (i : Fin n) (x : Worker Fn) :
    (s.setWorker i x).potential + s.weight i =
      s.potential + (x.pc.weight + if s.pending i && !x.pc.holdsMutex then 8 else 0) := by
  have hmove : (s.setWorker i x).potential + _ = _ := State.potential_move (s := s) (i := i)
    fun j hj => by simp [State.weight, State.setWorker, State.pending, hj]
  have hx : (s.setWorker i x).weight i =
      x.pc.weight + if s.pending i && !x.pc.holdsMutex then 8 else 0 := by
    simp [State.weight, State.setWorker, State.pending]
  have hc : (s.setWorker i x).caller = s.caller := rfl
  rw [hc, hx] at hmove
  omega

/-- A thread moves, and does not begin its work. -/
theorem State.potential_worker (s : State Fn n) (i : Fin n) {x : Worker Fn}
    (hm : x.pc.holdsMutex = (s.workers i).pc.holdsMutex) :
    (s.setWorker i x).potential + (s.workers i).pc.weight = s.potential + x.pc.weight := by
  have hmove := s.potential_setWorker i x
  rw [hm, weight] at hmove
  omega

theorem State.worker_lt {s : State Fn n} {i : Fin n} {x : Worker Fn} {pc : WorkerPc Fn}
    (hpc : (s.workers i).pc = pc) (hm : x.pc.holdsMutex = pc.holdsMutex)
    (hlt : x.pc.weight < pc.weight) : (s.setWorker i x).potential < s.potential := by
  subst hpc
  have hmove := s.potential_worker i hm
  omega

/-- A thread wakes up. -/
theorem State.potential_enter {s : State Fn n} {i : Fin n} (hpc : (s.workers i).pc = .asleep) :
    (s.setPc i .entering).potential = s.potential + 1 := by
  have hmove : (s.setPc i .entering).potential + _ = s.potential + 1 :=
    s.potential_worker i (by rw [hpc]; rfl)
  rwa [hpc] at hmove

theorem State.potential_notifyWorker (s : State Fn n) (i : Fin n) :
    (s.notifyWorker i).potential ≤ s.potential + 1 := by
  unfold notifyWorker
  split
  · next hpc => exact (potential_enter hpc).le
  · omega

theorem State.potential_wakeCaller {s : State Fn n} {i : Nat} (hc : s.caller = .asleep i) :
    (s.setCaller (.waiting i)).potential = s.potential + 1 := by
  have hmove : (s.setCaller (.waiting i)).potential + s.caller.weight n =
      s.potential + (2 * (n - i) + 2) := potential_caller rfl
  rw [hc] at hmove
  simp only [CallerPc.weight] at hmove
  omega

theorem State.potential_notifyCaller (s : State Fn n) (i : Fin n) :
    (s.notifyCaller i).potential ≤ s.potential + 1 := by
  unfold notifyCaller
  split
  · next hc => exact (potential_wakeCaller hc).le
  · omega

/-- A step of the pool begins a call, is a spurious wakeup or lowers the potential. -/
theorem step_potential {s s' : State Fn n} (hs : Step s s') :
    Starts s s' ∨ (Wakes s s' ∧ s'.potential ≤ s.potential + 1) ∨ s'.potential < s.potential := by
  cases hs with
  | call f m hc => exact .inl ⟨hc, by simp⟩
  | destroy hc => exact .inl ⟨hc, by simp [State.setCaller]⟩
  | spuriousCaller i hc =>
    exact .inr (.inl ⟨.inl ⟨i, hc, rfl, rfl⟩, (State.potential_wakeCaller hc).le⟩)
  | spurious i hpc =>
    refine .inr (.inl ⟨.inr ⟨⟨i, hpc, ?_⟩, rfl⟩, (State.potential_enter hpc).le⟩)
    simp [State.setPc, State.setWorker]
  | writeNumTasks m hc =>
    refine .inr (.inr (State.caller_lt rfl ?_))
    simp only [hc, CallerPc.weight]
    omega
  | arm i hc hm =>
    -- Thread `i` is given work.
    have hi := i.2
    refine .inr (.inr (State.move_lt i (fun j hj => by simp [State.weight, State.pending, hj]) ?_))
    simp only [hc, CallerPc.weight, State.weight]
    split <;> omega
  | armed hc =>
    refine .inr (.inr (State.caller_lt rfl ?_))
    simp only [hc, State.setCaller, CallerPc.weight]
    omega
  | notify i hc =>
    have hmove : ((s.notifyWorker i).setCaller (.notifying (i + 1))).potential + _ = _ :=
      State.potential_caller (s := s.notifyWorker i) rfl
    have hwoken := s.potential_notifyWorker i
    have hi := i.2
    rw [s.notifyWorker_caller i, hc] at hmove
    simp only [State.setCaller, CallerPc.weight] at hmove ⊢
    exact .inr (.inr (by omega))
  | notified hc =>
    refine .inr (.inr (State.caller_lt rfl ?_))
    simp only [hc, State.setCaller, CallerPc.weight]
    omega
  | seeFinished i hc hm hf =>
    have hi := i.2
    refine .inr (.inr (State.caller_lt rfl ?_))
    simp only [hc, State.setCaller, CallerPc.weight]
    omega
  | callerSleep i hc hm hf =>
    refine .inr (.inr (State.caller_lt rfl ?_))
    simp only [hc, State.setCaller, CallerPc.weight]
    omega
  | callReturns hc =>
    refine .inr (.inr (State.caller_lt rfl ?_))
    simp [hc, State.setCaller, CallerPc.weight]
  | destruct i hc hm =>
    have hi := i.2
    refine .inr (.inr (State.caller_lt rfl ?_))
    simp only [hc, CallerPc.weight]
    omega
  | destructed hc =>
    refine .inr (.inr (State.caller_lt rfl ?_))
    simp only [hc, State.setCaller, CallerPc.weight]
    omega
  | notifyDestructed i hc =>
    have hmove : ((s.notifyWorker i).setCaller (.stopNotifying (i + 1))).potential + _ = _ :=
      State.potential_caller (s := s.notifyWorker i) rfl
    have hwoken := s.potential_notifyWorker i
    have hi := i.2
    rw [s.notifyWorker_caller i, hc] at hmove
    simp only [State.setCaller, CallerPc.weight] at hmove ⊢
    exact .inr (.inr (by omega))
  | exit i hpc hd => exact .inr (.inr (State.worker_lt hpc rfl (by simp [WorkerPc.weight])))
  | begin i hpc hd hp =>
    have hmove : (s.setPc i .reading).potential + s.weight i =
        s.potential + (8 + if s.pending i && !true then 8 else 0) := s.potential_setWorker i _
    simp only [State.weight, hpc, hp, WorkerPc.weight, WorkerPc.holdsMutex] at hmove
    simp at hmove
    exact .inr (.inr (by omega))
  | sleep i hpc hd hp => exact .inr (.inr (State.worker_lt hpc rfl (by simp [WorkerPc.weight])))
  | readBegin i hpc => exact .inr (.inr (State.worker_lt hpc rfl (by simp [WorkerPc.weight])))
  | readEnd i b hpc => exact .inr (.inr (State.worker_lt hpc rfl (by simp [WorkerPc.weight])))
  | callFunction i b e f hpc hlt hf =>
    exact .inr (.inr (State.worker_lt hpc rfl (by simp [WorkerPc.weight])))
  | skip i b e hpc hlt => exact .inr (.inr (State.worker_lt hpc rfl (by simp [WorkerPc.weight])))
  | functionReturns i f b e hpc =>
    exact .inr (.inr (State.worker_lt hpc rfl (by simp [WorkerPc.weight])))
  | finish i hpc =>
    -- The work of thread `i` is done.
    refine .inr (.inr (State.move_lt i (fun j hj => ?_) ?_))
    · simp [State.weight, State.pending, State.setPc, State.setWorker, hj]
    · simp [State.weight, State.pending, State.setPc, State.setWorker, hpc, WorkerPc.weight,
        WorkerPc.holdsMutex]
  | notifyDone i hpc =>
    have hmove : ((s.notifyCaller i).setPc i .entering).potential + _ = _ :=
      (s.notifyCaller i).potential_worker i (by simp [hpc, WorkerPc.holdsMutex])
    have hwoken := s.potential_notifyCaller i
    rw [s.notifyCaller_workers i, hpc] at hmove
    simp only [WorkerPc.weight] at hmove
    exact .inr (.inr (by omega))

theorem works_potential (s s' : State Fn n) (h : Works s s') : s'.potential < s.potential := by
  rcases step_potential h.step with hstarts | ⟨hwakes, -⟩ | hlt
  · exact absurd hstarts h.notStarts
  · exact absurd hwakes h.notWakes
  · exact hlt

theorem disturbs_potential (s s' : State Fn n) (h : Disturbs s s') :
    s'.potential ≤ s.potential + 1 := by
  rcases step_potential h.step with hstarts | ⟨-, hle⟩ | hlt
  · exact absurd hstarts h.wakes.not_starts
  · exact hle
  · exact hlt.le.trans (Nat.le_add_right _ _)

/-- Without a call in progress no thread has work. -/
theorem Inv.idle {s : State Fn n} (h : Inv s) (i : Fin n) (harmed : s.caller.armed i = false)
    (hunarmed : s.caller.unarmed i = false) :
    s.pending i = false ∧ (s.workers i).pc.holdsMutex = false ∧
      (s.workers i).begun = ranges n i s.history ∧ (s.workers i).ended = ranges n i s.history := by
  have hw := h.workers i
  have hrest : s.pending i = false := by
    by_contra hp
    have ha := (hw.working (by simpa [State.pending] using hp)).1
    rw [harmed] at ha
    cases ha
  refine ⟨hrest, ?_⟩
  have hdone := hw.done hrest
  rwa [hunarmed] at hdone

theorem WorkerPc.weight_le {pc : WorkerPc Fn} (h : pc.holdsMutex = false) : pc.weight ≤ 3 := by
  cases pc <;> simp_all [weight, holdsMutex]

/-- The potential when a call begins. -/
theorem starts_potential {s s' : State Fn n} (h : Inv s) (hs : Step s s') (hstarts : Starts s s') :
    s'.potential ≤ 16 * n + 5 := by
  obtain ⟨hidle, hstarts⟩ := hstarts
  have hworkers : ∑ i, s.weight i ≤ n * 3 := by
    have hsum := Finset.sum_le_card_nsmul Finset.univ s.weight 3 fun i _ => by
      obtain ⟨hp, hm, -⟩ := h.idle i (by rw [hidle]; rfl) (by rw [hidle]; rfl)
      have hpc := WorkerPc.weight_le hm
      simpa [State.weight, hp] using hpc
    simpa using hsum
  cases hs with
  | call f m hc =>
    show 13 * n + 5 + ∑ i, s.weight i ≤ _
    omega
  | destroy hc =>
    show (n - 0) + (2 * n + 1) + ∑ i, s.weight i ≤ _
    omega
  | writeNumTasks m hc => simp [hidle] at hc
  | arm i hc => simp [hidle] at hc
  | armed hc => simp [hidle] at hc
  | notify i hc => simp [hidle] at hc
  | notified hc => simp [hidle] at hc
  | seeFinished i hc => simp [hidle] at hc
  | callerSleep i hc => simp [hidle] at hc
  | spuriousCaller i hc => simp [hidle] at hc
  | callReturns hc => simp [hidle] at hc
  | destruct i hc => simp [hidle] at hc
  | destructed hc => simp [hidle] at hc
  | notifyDestructed i hc => simp [hidle] at hc
  | notifyDone i hpc =>
    have hcaller : (s.notifyCaller i).caller = .idle := by
      simp [State.notifyCaller, hidle]
    exact absurd hcaller hstarts
  | _ => exact absurd hidle hstarts

/-! ## Whom nobody wakes -/

namespace CallerPc

/-- The index of the loop is one of the threads. -/
def InRange (n : Nat) : CallerPc → Prop
  | .idle | .wroteFunction _ => True
  | .arming i | .notifying i | .waiting i | .stopping i | .stopNotifying i => i ≤ n
  | .asleep i => i < n

/-- The destructor has set the flag of thread `i`. -/
def hasStopped : CallerPc → Nat → Bool
  | .stopping j, i => i < j
  | .stopNotifying _, _ => true
  | _, _ => false

/-- The destructor has yet to notify thread `i`. -/
def owesStop : CallerPc → Nat → Bool
  | .stopping _, _ => true
  | .stopNotifying j, i => j ≤ i
  | _, _ => false

end CallerPc

/-- A thread that sleeps has seen no flag of the destructor, unless it is about to be notified. -/
structure Settled (s : State Fn n) : Prop where
  inRange : s.caller.InRange n
  stopped : ∀ i : Fin n, s.caller.hasStopped i = true → s.destructed i = true
  asleep : ∀ i : Fin n, (s.workers i).pc = .asleep → s.destructed i = true →
    s.caller.owesStop i = true
  exited : ∀ i, (s.workers i).pc = .exited → s.destructed i = true

theorem settled_init (m : Nat) : Settled (init m : State Fn n) := by
  refine ⟨trivial, fun i h => ?_, fun i hpc => ?_, fun i hpc => ?_⟩
  · cases h
  · cases hpc
  · cases hpc

theorem Settled.setWorker {s : State Fn n} (h : Settled s) {i : Fin n} {x : Worker Fn}
    (hasleep : x.pc = .asleep → s.destructed i = false)
    (hexited : x.pc = .exited → s.destructed i = true) : Settled (s.setWorker i x) := by
  refine ⟨h.inRange, h.stopped, fun j hpc hd => ?_, fun j hpc => ?_⟩
  · by_cases hj : j = i
    · subst hj
      have hpc : x.pc = .asleep := by simpa [State.setWorker] using hpc
      exact absurd ((hasleep hpc).symm.trans hd) (by simp)
    · exact h.asleep j (by simpa [State.setWorker, hj] using hpc) hd
  · by_cases hj : j = i
    · subst hj
      exact hexited (by simpa [State.setWorker] using hpc)
    · exact h.exited j (by simpa [State.setWorker, hj] using hpc)

/-- The caller moves, outside the destructor. -/
theorem Settled.setCaller {s s' : State Fn n} (h : Settled s) (hi : Inv s)
    (hold : s.caller.stops = false) (hnew : s'.caller.stops = false)
    (hrange : s'.caller.InRange n) (hd : s'.destructed = s.destructed)
    (hw : s'.workers = s.workers) : Settled s' := by
  have hno : ∀ i, s.destructed i = true → False := fun i hd => by
    have := (hi.workers i).exited (.inl hd)
    rw [hold] at this
    cases this
  refine ⟨hrange, fun i hs => ?_, fun i _ hdi => (hno i (hd ▸ hdi)).elim, fun i hpc => ?_⟩
  · cases hc : s'.caller <;> simp [hc, CallerPc.stops, CallerPc.hasStopped] at hnew hs
  · rw [hd]
    exact h.exited i (hw ▸ hpc)

theorem Settled.notifyWorker {s : State Fn n} (h : Settled s) (i : Fin n) :
    Settled (s.notifyWorker i) := by
  unfold State.notifyWorker
  split
  · exact h.setWorker (by simp) (by simp)
  · exact h

@[simp] theorem State.notifyWorker_destructed (s : State Fn n) (i : Fin n) :
    (s.notifyWorker i).destructed = s.destructed := by
  unfold State.notifyWorker
  split <;> rfl

theorem Settled.notifyCaller {s : State Fn n} (h : Settled s) (hi : Inv s) (i : Fin n) :
    Settled (s.notifyCaller i) := by
  unfold State.notifyCaller
  split
  · next hc =>
    exact h.setCaller hi (by rw [hc]; rfl) rfl (show (i : Nat) ≤ n from i.2.le) rfl rfl
  · exact h

theorem settled_step {s s' : State Fn n} (h : Settled s) (hi : Inv s) (hs : Step s s') :
    Settled s' := by
  have hrange := h.inRange
  cases hs with
  | call f m hc => exact h.setCaller hi (by rw [hc]; rfl) rfl trivial rfl rfl
  | writeNumTasks m hc => exact h.setCaller hi (by rw [hc]; rfl) rfl (Nat.zero_le n) rfl rfl
  | arm i hc hm => exact h.setCaller hi (by rw [hc]; rfl) rfl i.2 rfl rfl
  | armed hc => exact h.setCaller hi (by rw [hc]; rfl) rfl (Nat.zero_le n) rfl rfl
  | notify i hc =>
    refine (h.notifyWorker i).setCaller (hi.notifyWorker i) ?_ rfl i.2 rfl rfl
    rw [s.notifyWorker_caller i, hc]
    rfl
  | notified hc => exact h.setCaller hi (by rw [hc]; rfl) rfl (Nat.zero_le n) rfl rfl
  | seeFinished i hc hm hf => exact h.setCaller hi (by rw [hc]; rfl) rfl i.2 rfl rfl
  | callerSleep i hc hm hf => exact h.setCaller hi (by rw [hc]; rfl) rfl i.2 rfl rfl
  | spuriousCaller i hc =>
    rw [hc] at hrange
    exact h.setCaller hi (by rw [hc]; rfl) rfl (Nat.le_of_lt hrange) rfl rfl
  | callReturns hc => exact h.setCaller hi (by rw [hc]; rfl) rfl trivial rfl rfl
  | destroy hc =>
    have hno : ∀ i, s.destructed i ≠ true := fun i hd => by
      have hstops := (hi.workers i).exited (.inl hd)
      rw [hc] at hstops
      cases hstops
    exact ⟨Nat.zero_le n, fun i hs => by simp [State.setCaller, CallerPc.hasStopped] at hs,
      fun i _ hd => absurd hd (hno i), h.exited⟩
  | destruct i hc hm =>
    refine ⟨i.2, fun j hs => ?_, fun j _ _ => rfl, fun j hpc => ?_⟩
    · by_cases hj : j = i
      · simp [hj]
      · have hji : (j : Nat) ≠ i := fun he => hj (Fin.ext he)
        have hlt : (j : Nat) < i := by
          have : (j : Nat) < i + 1 := by simpa [CallerPc.hasStopped] using hs
          omega
        simpa [hj] using h.stopped j (by simp [hc, CallerPc.hasStopped, hlt])
    · by_cases hj : j = i
      · simp [hj]
      · simpa [hj] using h.exited j hpc
  | destructed hc =>
    exact ⟨Nat.zero_le n, fun i _ => h.stopped i (by simp [hc, CallerPc.hasStopped]),
      fun i _ _ => by simp [State.setCaller, CallerPc.owesStop], h.exited⟩
  | notifyDestructed i hc =>
    have h' := h.notifyWorker i
    have hpcs := s.notifyWorker_pc i
    refine ⟨i.2, fun j _ => ?_, fun j hpc hd => ?_, h'.exited⟩
    · have hstopped := h.stopped j (by rw [hc]; rfl)
      rwa [← s.notifyWorker_destructed i] at hstopped
    · have howes := h'.asleep j hpc hd
      rw [s.notifyWorker_caller i, hc] at howes
      have hle : (i : Nat) ≤ j := by simpa [CallerPc.owesStop] using howes
      have hne : (j : Nat) ≠ i := fun he => hpcs (Fin.ext he ▸ hpc)
      simp only [State.setCaller, CallerPc.owesStop, decide_eq_true_eq]
      omega
  | exit i hpc hd => exact h.setWorker (by simp) fun _ => hd
  | sleep i hpc hd hp => exact h.setWorker (fun _ => hd) (by simp)
  | finish i hpc =>
    have h' : Settled (s.setPc i .toNotify) := h.setWorker (by simp) (by simp)
    exact ⟨h'.inRange, h'.stopped, h'.asleep, h'.exited⟩
  | notifyDone i hpc => exact (h.notifyCaller hi i).setWorker (by simp) (by simp)
  | _ => exact h.setWorker (by simp) (by simp)

theorem settled_of_reachable {s : State Fn n} (h : Reachable s) : Settled s := by
  obtain ⟨m, hr⟩ := h
  induction hr with
  | refl => exact settled_init m
  | tail hr hs ih => exact settled_step ih (inv_of_reachable ⟨m, hr⟩) hs

/-! ## Progress -/

theorem Works.of_caller {s s' : State Fn n} (hs : Step s s') (hidle : s.caller ≠ .idle)
    (hasleep : ∀ i, s.caller ≠ .asleep i) (hne : s'.caller ≠ s.caller) : Works s s' :=
  ⟨hs, fun h => hidle h.1, fun h => h.elim (fun ⟨i, hi, _⟩ => hasleep i hi) fun h => hne h.2⟩

theorem Works.of_worker {s s' : State Fn n} (hs : Step s s') {i : Fin n} {x : Worker Fn}
    (hw : s'.workers = Function.update s.workers i x) (hold : (s.workers i).pc ≠ .asleep)
    (hnew : x.pc ≠ (s.workers i).pc) (hidle : s.caller = .idle → s'.caller = .idle) :
    Works s s' := by
  refine ⟨hs, fun h => h.2 (hidle h.1), ?_⟩
  rintro (⟨-, -, -, hsame⟩ | ⟨⟨j, hpc, hpc'⟩, -⟩)
  · rw [hsame] at hw
    have hx := congrFun hw i
    rw [Function.update_self] at hx
    exact hnew (congrArg Worker.pc hx.symm)
  · rw [hw] at hpc'
    by_cases hj : j = i
    · exact hold (hj ▸ hpc)
    · rw [Function.update_of_ne hj, hpc] at hpc'
      cases hpc'

/-- A step of the threads that ends no call of a function. -/
structure Begins (s s' : State Fn n) : Prop where
  works : Works s s'
  ended : ∀ i, (s'.workers i).ended = (s.workers i).ended

theorem Begins.of_worker {s s' : State Fn n} (hs : Step s s') {i : Fin n} {x : Worker Fn}
    (hw : s'.workers = Function.update s.workers i x) (hold : (s.workers i).pc ≠ .asleep)
    (hnew : x.pc ≠ (s.workers i).pc) (hidle : s.caller = .idle → s'.caller = .idle)
    (hended : x.ended = (s.workers i).ended) : Begins s s' := by
  refine ⟨.of_worker hs hw hold hnew hidle, fun j => ?_⟩
  rw [hw]
  by_cases hj : j = i
  · rw [hj, Function.update_self, hended]
  · rw [Function.update_of_ne hj]

theorem State.notifyWorker_ended (s : State Fn n) (i j : Fin n) :
    ((s.notifyWorker i).workers j).ended = (s.workers j).ended := by
  unfold State.notifyWorker
  split
  · by_cases hj : j = i
    · subst hj
      simp [State.setPc, State.setWorker]
    · simp [State.setPc, State.setWorker, hj]
  · rfl

/-- A thread whose next step is not the return of its function. -/
theorem rests_worker {s : State Fn n} (hi : Inv s) (h : Progress.Rests Begins s) (i : Fin n) :
    (s.workers i).pc = .asleep ∨ (s.workers i).pc = .exited ∨
      ∃ f b e, (s.workers i).pc = .calling f b e := by
  cases hpc : (s.workers i).pc with
  | asleep => exact .inl rfl
  | exited => exact .inr (.inl rfl)
  | calling f b e => exact .inr (.inr ⟨f, b, e, rfl⟩)
  | entering =>
    cases hd : s.destructed i with
    | true =>
      exact absurd (.of_worker (.exit i hpc hd) rfl (by simp [hpc]) (by simp [hpc]) id rfl) (h _)
    | false =>
      cases hp : s.pending i with
      | true =>
        exact absurd (.of_worker (.begin i hpc hd hp) rfl (by simp [hpc]) (by simp [hpc]) id rfl)
          (h _)
      | false =>
        exact absurd (.of_worker (.sleep i hpc hd hp) rfl (by simp [hpc]) (by simp [hpc]) id rfl)
          (h _)
  | reading =>
    exact absurd (.of_worker (.readBegin i hpc) rfl (by simp [hpc]) (by simp [hpc]) id rfl) (h _)
  | hasBegin b =>
    exact absurd (.of_worker (.readEnd i b hpc) rfl (by simp [hpc]) (by simp [hpc]) id rfl) (h _)
  | hasRange b e =>
    by_cases hlt : b < e
    · obtain ⟨-, prev, c, -, -, hf, -⟩ := hi.holding (i := i) (by simp [hpc, WorkerPc.holdsMutex])
      exact absurd (.of_worker (.callFunction i b e c.1 hpc hlt hf) rfl (by simp [hpc])
        (by simp [hpc]) id rfl) (h _)
    · exact absurd (.of_worker (.skip i b e hpc hlt) rfl (by simp [hpc]) (by simp [hpc]) id rfl)
        (h _)
  | called =>
    exact absurd (.of_worker (.finish i hpc) rfl (by simp [hpc]) (by simp [hpc]) id rfl) (h _)
  | toNotify =>
    have hw : ((s.notifyCaller i).setPc i .entering).workers =
        Function.update s.workers i { s.workers i with pc := .entering } := by
      simp [State.setPc, State.setWorker]
    refine absurd (.of_worker (.notifyDone i hpc) hw (by simp [hpc]) (by simp [hpc])
      (fun hc => ?_) rfl) (h _)
    simp [State.setPc, State.setWorker, State.notifyCaller, hc]

/-- No thread is in its function in a pool at rest. -/
theorem not_calling {s : State Fn n} (h : Progress.Rests Works s) (i : Fin n) (f : Fn)
    (b e : Nat) : (s.workers i).pc ≠ .calling f b e := fun hpc =>
  h _ (.of_worker (.functionReturns i f b e hpc) rfl (by simp [hpc]) (by simp [hpc]) id)

/-- Where the caller can wait for the return of a function: in no call, for the thread `i`, or when
it has stopped all threads. -/
theorem Settled.rests_caller {s : State Fn n} (hs : Settled s) (hi : Inv s)
    (h : Progress.Rests Begins s) :
    s.caller = .idle ∨ (∃ i : Fin n, s.caller = .asleep i) ∨
      (∃ i : Fin n, s.caller = .waiting i ∧ ∃ f b e, (s.workers i).pc = .calling f b e) ∨
      s.caller = .stopNotifying n := by
  have hrange := hs.inRange
  have hbegins : ∀ {s'}, Step s s' → s.caller ≠ .idle → (∀ i, s.caller ≠ .asleep i) →
      s'.caller ≠ s.caller → (∀ i, (s'.workers i).ended = (s.workers i).ended) → False :=
    fun hstep hidle hasleep hne hended => h _ ⟨.of_caller hstep hidle hasleep hne, hended⟩
  -- A thread that holds its mutex works on the current call, for which it has been armed.
  have hfree : ∀ i : Fin n, s.caller.armed i = false → s.mutexFree i := fun i harmed => by
    by_contra hm
    have hholds : (s.workers i).pc.holdsMutex = true := by simpa [State.mutexFree] using hm
    have := ((hi.workers i).working (hi.holding hholds).1).1
    rw [harmed] at this
    cases this
  cases hc : s.caller with
  | idle => exact .inl rfl
  | wroteFunction m =>
    exact (hbegins (.writeNumTasks m hc) (by simp [hc]) (by simp [hc]) (by simp [hc])
      fun _ => rfl).elim
  | arming j =>
    rw [hc] at hrange
    rcases Nat.lt_or_eq_of_le hrange with hlt | rfl
    · exact (hbegins (.arm ⟨j, hlt⟩ hc (hfree _ (by simp [hc, CallerPc.armed]))) (by simp [hc])
        (by simp [hc]) (by simp [hc]) fun _ => rfl).elim
    · exact (hbegins (.armed hc) (by simp [hc]) (by simp [hc])
        (by simp [hc, State.setCaller]) fun _ => rfl).elim
  | notifying j =>
    rw [hc] at hrange
    rcases Nat.lt_or_eq_of_le hrange with hlt | rfl
    · exact (hbegins (.notify ⟨j, hlt⟩ hc) (by simp [hc]) (by simp [hc])
        (by simp [hc, State.setCaller]) (s.notifyWorker_ended ⟨j, hlt⟩)).elim
    · exact (hbegins (.notified hc) (by simp [hc]) (by simp [hc])
        (by simp [hc, State.setCaller]) fun _ => rfl).elim
  | waiting j =>
    rw [hc] at hrange
    rcases Nat.lt_or_eq_of_le hrange with hlt | rfl
    · by_cases hm : s.mutexFree ⟨j, hlt⟩
      · cases hf : s.finished ⟨j, hlt⟩ with
        | true =>
          exact (hbegins (.seeFinished ⟨j, hlt⟩ hc hm hf) (by simp [hc]) (by simp [hc])
            (by simp [hc, State.setCaller]) fun _ => rfl).elim
        | false =>
          exact (hbegins (.callerSleep ⟨j, hlt⟩ hc hm hf) (by simp [hc]) (by simp [hc])
            (by simp [hc, State.setCaller]) fun _ => rfl).elim
      · refine .inr (.inr (.inl ⟨⟨j, hlt⟩, rfl, ?_⟩))
        rcases rests_worker hi h ⟨j, hlt⟩ with hpc | hpc | hpc
        · simp [State.mutexFree, hpc, WorkerPc.holdsMutex] at hm
        · simp [State.mutexFree, hpc, WorkerPc.holdsMutex] at hm
        · exact hpc
    · exact (hbegins (.callReturns hc) (by simp [hc]) (by simp [hc])
        (by simp [hc, State.setCaller]) fun _ => rfl).elim
  | asleep j =>
    rw [hc] at hrange
    exact .inr (.inl ⟨⟨j, hrange⟩, rfl⟩)
  | stopping j =>
    rw [hc] at hrange
    rcases Nat.lt_or_eq_of_le hrange with hlt | rfl
    · exact (hbegins (.destruct ⟨j, hlt⟩ hc (hfree _ (by simp [hc, CallerPc.armed])))
        (by simp [hc]) (by simp [hc]) (by simp [hc]) fun _ => rfl).elim
    · exact (hbegins (.destructed hc) (by simp [hc]) (by simp [hc])
        (by simp [hc, State.setCaller]) fun _ => rfl).elim
  | stopNotifying j =>
    rw [hc] at hrange
    rcases Nat.lt_or_eq_of_le hrange with hlt | rfl
    · exact (hbegins (.notifyDestructed ⟨j, hlt⟩ hc) (by simp [hc]) (by simp [hc])
        (by simp [hc, State.setCaller]) (s.notifyWorker_ended ⟨j, hlt⟩)).elim
    · exact .inr (.inr (.inr rfl))

/-- A pool at rest waits for a call, or its threads have left their loops. -/
theorem Settled.rests {s : State Fn n} (hs : Settled s) (hi : Inv s)
    (h : Progress.Rests Works s) : s.caller = .idle ∨
      (s.caller = .stopNotifying n ∧ ∀ i, (s.workers i).pc = .exited) := by
  have hbegins : Progress.Rests Begins s := fun s' hs' => h s' hs'.works
  have hworker : ∀ i, (s.workers i).pc = .asleep ∨ (s.workers i).pc = .exited := fun i =>
    (rests_worker hi hbegins i).imp_right fun hpc =>
      hpc.resolve_right fun ⟨f, b, e, hpc⟩ => not_calling h i f b e hpc
  rcases hs.rests_caller hi hbegins with hc | ⟨i, hc⟩ | ⟨i, -, f, b, e, hpc⟩ | hc
  · exact .inl hc
  · exfalso
    have hw := hi.workers i
    have hasleep : (s.workers i).pc = .asleep := (hworker i).resolve_right fun hpc => by
      have hstops := hw.exited (.inr hpc)
      rw [hc] at hstops
      cases hstops
    -- The thread has no work, so it has finished and still has to notify.
    have hfn : s.hasFunction i = true := hw.armed (by rw [hc]; rfl)
    cases hf : s.finished i with
    | true =>
      have hnotify := hw.callerAsleep hc hf
      rw [hasleep] at hnotify
      cases hnotify
    | false =>
      have howes := hw.asleep hasleep (by rw [hfn, hf]; rfl)
      rw [hc] at howes
      cases howes
  · exact absurd hpc (not_calling h i f b e)
  · refine .inr ⟨hc, fun i => (hworker i).resolve_left fun hpc => ?_⟩
    have howes := hs.asleep i hpc (hs.stopped i (by rw [hc]; rfl))
    rw [hc] at howes
    have hle : n ≤ i := by simpa [CallerPc.owesStop] using howes
    have := i.2
    omega

theorem Reachable.step {s s' : State Fn n} (h : Reachable s) (hs : Step s s') : Reachable s' := by
  obtain ⟨m, hr⟩ := h
  exact ⟨m, .tail hr hs⟩

/-- A call of `run`, or of the destructor, in a pool that was used in any way before: with `k`
spurious wakeups the threads take at most `16 * n + 5 + k` steps until the next call, in whatever
order. When they rest the call has returned, each thread has run its ranges of all calls once and in
order, and after the destructor's notifications each can be joined. Left alone, they come to
rest. -/
theorem run_returns {s s₁ s' : State Fn n} (hr : Reachable s) (hstep : Step s s₁)
    (hstarts : Starts s s₁) {m k : Nat} (hrun : Progress.Run Works Disturbs m k s₁ s') :
    m ≤ 16 * n + 5 + k ∧
    (∃ m' s'', Progress.Run Works Disturbs m' 0 s' s'' ∧ Progress.Rests Works s'') ∧
    (Progress.Rests Works s' →
      (∀ i, (s'.workers i).begun = ranges n i s₁.history ∧
        (s'.workers i).ended = ranges n i s₁.history) ∧
      ((s₁.caller.stops = false ∧ s'.caller = .idle) ∨
        (s₁.caller.stops = true ∧ s'.caller = .stopNotifying n ∧
          ∀ i, (s'.workers i).pc = .exited))) := by
  have hbound := hrun.bound works_potential disturbs_potential
  have hstart := starts_potential (inv_of_reachable hr) hstep hstarts
  refine ⟨by omega, Progress.exists_rests works_potential _ _, fun hrests => ?_⟩
  obtain ⟨hr', hhistory, hstops⟩ := hrun.invariant
    (I := fun t => Reachable t ∧ t.history = s₁.history ∧ t.caller.stops = s₁.caller.stops)
    (fun t t' ⟨ht, hh, hc⟩ hw => by
      obtain ⟨hh', hc'⟩ := step_same hw.step hw.notStarts
      exact ⟨ht.step hw.step, hh'.trans hh, hc'.trans hc⟩)
    (fun t t' ⟨ht, hh, hc⟩ hw => by
      obtain ⟨hh', hc'⟩ := step_same hw.step hw.wakes.not_starts
      exact ⟨ht.step hw.step, hh'.trans hh, hc'.trans hc⟩)
    ⟨hr.step hstep, rfl, rfl⟩
  have hi := inv_of_reachable hr'
  have hend := (settled_of_reachable hr').rests hi hrests
  rw [← hhistory, ← hstops]
  rcases hend with hc | ⟨hc, hexited⟩
  · exact ⟨fun i => (hi.idle i (by rw [hc]; rfl) (by rw [hc]; rfl)).2.2,
      .inl ⟨by rw [hc]; rfl, hc⟩⟩
  · exact ⟨fun i => (hi.idle i (by rw [hc]; rfl) (by rw [hc]; rfl)).2.2,
      .inr ⟨by rw [hc]; rfl, hc, hexited⟩⟩

/-- A pool of two threads that has just been called for three tasks. -/
def threeCalled : State Nat 2 where
  function := some 7
  caller := .wroteFunction 3
  numTasks := 0
  history := [(7, 3)]

theorem run_returns_three : ∃ m s', m ≤ 37 ∧
    Progress.Run Works Disturbs m 0 threeCalled s' ∧ s'.caller = .idle ∧
      (s'.workers 0).ended = [(7, 0, 2)] ∧ (s'.workers 1).ended = [(7, 2, 3)] := by
  have hstep : Step (init 0) threeCalled := .call 7 3 rfl
  have hstarts : Starts (init 0) threeCalled := ⟨rfl, by simp [threeCalled]⟩
  have hinit : Reachable (init 0 : State Nat 2) := ⟨0, .refl⟩
  obtain ⟨-, ⟨m, s', hrun, hrests⟩, -⟩ := run_returns hinit hstep hstarts (.refl _)
  obtain ⟨hbound, -, hreturned⟩ := run_returns hinit hstep hstarts hrun
  obtain ⟨hlogs, hend⟩ := hreturned hrests
  rcases hend with ⟨-, hc⟩ | ⟨hstops, -⟩
  · exact ⟨m, s', hbound, hrun, hc, (hlogs 0).2, (hlogs 1).2⟩
  · cases hstops

end HashJoin.FilterThreadPool
