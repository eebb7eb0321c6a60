import Mathlib.Tactic
import Mathlib.Data.Fintype.Card
import Mathlib.Logic.Relation

/-!
# The thread pool

`ThreadPool` dispatches one task at a time to `n` workers by bumping `generation_`. The model is
a step relation over the dispatcher and the workers. A mutex-protected section is one step,
except for the wait loop of `run_parallel`: its predicate loads the atomic `active_count_`,
which the workers decrement without the mutex, so the load, the decision to sleep and the sleep
are separate steps, and the dispatcher holds the mutex in between (`mutexFree`). Every wait may
wake spuriously. `generation_` is a natural number: the `size_t` wraps only after `2 ^ 64` calls.

`history`, `begun` and `ended` record the tasks of all calls so far and the invocations of each
worker; no step reads them.
-/

namespace HashJoin.ThreadPool

variable {Task : Type} {n : Nat}

/-- Where a worker stands in `worker_loop`. -/
inductive WorkerPc (Task : Type) where
  /-- About to lock `mtx_` and test the predicate of `cv_start_`. -/
  | entering
  /-- Asleep on `cv_start_`. -/
  | asleep
  /-- Has copied `task_` and unlocked. -/
  | taken (localTask : Task)
  /-- In `local_task(thread_id)`. -/
  | running (localTask : Task)
  /-- The task returned; about to `fetch_sub`. -/
  | returned
  /-- `fetch_sub` returned 1; about to lock and `notify_one`. -/
  | toNotify
  | exited

/-- Where the dispatching thread stands in `run_parallel` or in the destructor. -/
inductive DispatcherPc where
  /-- No call in progress. -/
  | idle
  /-- The task is published; about to `cv_start_.notify_all()`. -/
  | toNotifyAll
  /-- About to lock `mtx_` for the wait on `cv_done_`. -/
  | toWait
  /-- Holds `mtx_`; about to load `active_count_`. -/
  | holding
  /-- Holds `mtx_` and read a nonzero count; about to sleep. -/
  | committed
  /-- Asleep on `cv_done_`, `mtx_` released. -/
  | asleep
  /-- `shutdown_` is set; about to `notify_all`. -/
  | stopping
  | stopped
  deriving DecidableEq

structure Worker (Task : Type) where
  pc : WorkerPc Task := .entering
  myGeneration : Nat := 0
  begun : List Task := []
  ended : List Task := []

structure State (Task : Type) (n : Nat) where
  workers : Fin n → Worker Task := fun _ => {}
  dispatcher : DispatcherPc := .idle
  task : Option Task := none
  activeCount : Nat := 0
  generation : Nat := 0
  shutdown : Bool := false
  history : List Task := []

namespace State

/-- Only the dispatcher holds `mtx_` across steps. -/
def mutexFree (s : State Task n) : Prop :=
  s.dispatcher ≠ .holding ∧ s.dispatcher ≠ .committed

instance (s : State Task n) : Decidable s.mutexFree :=
  inferInstanceAs (Decidable (_ ∧ _))

def setWorker (s : State Task n) (w : Fin n) (x : Worker Task) : State Task n :=
  { s with workers := Function.update s.workers w x }

end State

/-- A notified waiter returns to the test of its predicate. -/
def Worker.wake (x : Worker Task) : Worker Task :=
  match x.pc with
  | .asleep => { x with pc := .entering }
  | _ => x

/-- One step of the dispatcher or of a worker. -/
inductive Step : State Task n → State Task n → Prop where
  /-- The first section of `run_parallel(task_func)`. -/
  | publish {s : State Task n} (t : Task) : s.dispatcher = .idle →
      Step s { s with
        task := some t
        activeCount := n
        generation := s.generation + 1
        dispatcher := .toNotifyAll
        history := s.history ++ [t] }
  | notifyAll {s : State Task n} : s.dispatcher = .toNotifyAll →
      Step s { s with dispatcher := .toWait, workers := fun w => (s.workers w).wake }
  | lock {s : State Task n} : s.dispatcher = .toWait → Step s { s with dispatcher := .holding }
  | loadZero {s : State Task n} : s.dispatcher = .holding → s.activeCount = 0 →
      Step s { s with dispatcher := .idle }
  | loadBusy {s : State Task n} : s.dispatcher = .holding → s.activeCount ≠ 0 →
      Step s { s with dispatcher := .committed }
  | sleep {s : State Task n} : s.dispatcher = .committed → Step s { s with dispatcher := .asleep }
  | spuriousDone {s : State Task n} : s.dispatcher = .asleep →
      Step s { s with dispatcher := .toWait }
  /-- The destructor. -/
  | stop {s : State Task n} : s.dispatcher = .idle →
      Step s { s with shutdown := true, dispatcher := .stopping }
  | stopNotifyAll {s : State Task n} : s.dispatcher = .stopping →
      Step s { s with dispatcher := .stopped, workers := fun w => (s.workers w).wake }
  | exit {s : State Task n} (w : Fin n) : (s.workers w).pc = .entering → s.mutexFree →
      s.shutdown = true → Step s (s.setWorker w { s.workers w with pc := .exited })
  | take {s : State Task n} (w : Fin n) (t : Task) : (s.workers w).pc = .entering → s.mutexFree →
      s.shutdown = false → s.generation > (s.workers w).myGeneration → s.task = some t →
      Step s (s.setWorker w
        { s.workers w with pc := .taken t, myGeneration := s.generation })
  | workerSleep {s : State Task n} (w : Fin n) : (s.workers w).pc = .entering → s.mutexFree →
      s.shutdown = false → ¬ s.generation > (s.workers w).myGeneration →
      Step s (s.setWorker w { s.workers w with pc := .asleep })
  | spuriousStart {s : State Task n} (w : Fin n) : (s.workers w).pc = .asleep →
      Step s (s.setWorker w { s.workers w with pc := .entering })
  | invoke {s : State Task n} (w : Fin n) (t : Task) : (s.workers w).pc = .taken t →
      Step s (s.setWorker w
        { s.workers w with pc := .running t, begun := (s.workers w).begun ++ [t] })
  | finish {s : State Task n} (w : Fin n) (t : Task) : (s.workers w).pc = .running t →
      Step s (s.setWorker w
        { s.workers w with pc := .returned, ended := (s.workers w).ended ++ [t] })
  /-- `active_count_.fetch_sub(1)`, outside the mutex. -/
  | fetchSub {s : State Task n} (w : Fin n) : (s.workers w).pc = .returned →
      Step s { s.setWorker w { s.workers w with
          pc := if s.activeCount = 1 then .toNotify else .entering } with
        activeCount := s.activeCount - 1 }
  /-- `cv_done_.notify_one()` under the mutex. -/
  | notifyOne {s : State Task n} (w : Fin n) : (s.workers w).pc = .toNotify → s.mutexFree →
      Step s { s.setWorker w { s.workers w with pc := .entering } with
        dispatcher := if s.dispatcher = .asleep then .toWait else s.dispatcher }

/-- A pool just constructed. -/
def init : State Task n := {}

def Reachable (s : State Task n) : Prop := Relation.ReflTransGen Step init s

/-! ## The invariant -/

/-- The worker is between taking a task and its `fetch_sub`. -/
def WorkerPc.busy : WorkerPc Task → Bool
  | .taken _ | .running _ | .returned => true
  | _ => false

def WorkerPc.isReturned : WorkerPc Task → Bool
  | .returned => true
  | _ => false

/-- The worker has not decremented `active_count_` for generation `g`. -/
def Worker.unfinished (g : Nat) (x : Worker Task) : Bool := x.myGeneration < g || x.pc.busy

namespace State

/-- The workers that have not finished the current generation. -/
def unfinished (s : State Task n) : Finset (Fin n) :=
  Finset.univ.filter fun w => (s.workers w).unfinished s.generation = true

@[simp] theorem mem_unfinished {s : State Task n} {w : Fin n} :
    w ∈ s.unfinished ↔ (s.workers w).unfinished s.generation = true := by
  simp [unfinished]

@[simp] theorem setWorker_same (s : State Task n) (w : Fin n) (x : Worker Task) :
    (s.setWorker w x).workers w = x := by
  simp [setWorker]

theorem setWorker_other (s : State Task n) {w v : Fin n} (x : Worker Task) (h : v ≠ w) :
    (s.setWorker w x).workers v = s.workers v := by
  simp [setWorker, h]

end State

/-- A worker's progress through the calls `history`. -/
structure WorkerOk (history : List Task) (x : Worker Task) : Prop where
  le : x.myGeneration ≤ history.length
  ge : history.length ≤ x.myGeneration + 1
  current : x.pc.busy = true → x.myGeneration = history.length
  logs : match x.pc with
    | .taken t => x.begun ++ [t] = history ∧ x.ended = x.begun
    | .running t => x.begun = history ∧ x.ended ++ [t] = history
    | .returned => x.begun = history ∧ x.ended = history
    | _ => x.begun = history.take x.myGeneration ∧ x.ended = history.take x.myGeneration

structure Inv (s : State Task n) : Prop where
  generation : s.generation = s.history.length
  task : s.task = s.history.getLast?
  workers : ∀ w, WorkerOk s.history (s.workers w)
  count : s.activeCount = s.unfinished.card
  quiet : s.dispatcher = .idle ∨ s.dispatcher = .stopping ∨ s.dispatcher = .stopped →
    s.activeCount = 0
  notifier : s.dispatcher = .committed ∨ s.dispatcher = .asleep → s.activeCount = 0 →
    ∃ w, (s.workers w).pc = .toNotify

theorem inv_init : Inv (init : State Task n) := by
  refine ⟨rfl, rfl, fun w => ⟨le_refl _, by simp [init], fun h => ?_, ?_⟩, ?_, fun _ => rfl, ?_⟩
  · simp [init, WorkerPc.busy] at h
  · simp [init]
  · simp [init, State.unfinished, Worker.unfinished, WorkerPc.busy]
  · simp [init]

/-- A count of zero: every worker is done with every call so far. -/
theorem Inv.all_done {s : State Task n} (h : Inv s) (h0 : s.activeCount = 0) (w : Fin n) :
    (s.workers w).myGeneration = s.history.length ∧ (s.workers w).pc.busy = false ∧
      (s.workers w).begun = s.history ∧ (s.workers w).ended = s.history := by
  have hw : w ∉ s.unfinished := by
    rw [Finset.card_eq_zero.mp (h.count.symm.trans h0)]
    exact Finset.notMem_empty w
  simp only [State.mem_unfinished, Worker.unfinished, Bool.or_eq_true, decide_eq_true_eq,
    not_or, not_lt, Bool.not_eq_true] at hw
  obtain ⟨hle, -, -, hlogs⟩ := h.workers w
  have hg : (s.workers w).myGeneration = s.history.length :=
    le_antisymm hle (h.generation ▸ hw.1)
  refine ⟨hg, hw.2, ?_⟩
  cases hpc : (s.workers w).pc <;> simp_all [WorkerPc.busy]

/-- A step of worker `w` that keeps the generation, the history and whether `w` is unfinished
keeps the invariant, if the worker's new state is a legal one. -/
theorem Inv.setWorker {s : State Task n} (h : Inv s) {w : Fin n} {x : Worker Task}
    (hx : WorkerOk s.history x)
    (hu : x.unfinished s.generation = (s.workers w).unfinished s.generation)
    (hn : (s.workers w).pc = .toNotify → s.dispatcher ≠ .committed ∧ s.dispatcher ≠ .asleep) :
    Inv (s.setWorker w x) := by
  have hcard : (s.setWorker w x).unfinished = s.unfinished := by
    ext v
    rw [State.mem_unfinished, State.mem_unfinished]
    by_cases hv : v = w
    · subst hv
      rw [State.setWorker_same]
      exact Bool.eq_iff_iff.mp hu
    · rw [State.setWorker_other s x hv]
      rfl
  refine ⟨h.generation, h.task, fun v => ?_, hcard ▸ h.count, h.quiet, fun hd h0 => ?_⟩
  · by_cases hv : v = w
    · subst hv
      rw [State.setWorker_same]
      exact hx
    · rw [State.setWorker_other s x hv]
      exact h.workers v
  · obtain ⟨v, hv⟩ := h.notifier hd h0
    have hvw : v ≠ w := by
      rintro rfl
      rcases hd with hd | hd
      · exact (hn hv).1 hd
      · exact (hn hv).2 hd
    exact ⟨v, by rw [State.setWorker_other s x hvw]; exact hv⟩

/-- A worker at rest has run a prefix of the calls. -/
theorem WorkerOk.of_rest {history : List Task} {x : Worker Task} (hb : x.pc.busy = false)
    (hle : x.myGeneration ≤ history.length) (hge : history.length ≤ x.myGeneration + 1)
    (hlogs : x.begun = history.take x.myGeneration ∧ x.ended = history.take x.myGeneration) :
    WorkerOk history x := by
  refine ⟨hle, hge, fun h => absurd h (by simp [hb]), ?_⟩
  cases hpc : x.pc <;> simp_all [WorkerPc.busy]

theorem WorkerOk.rest_logs {history : List Task} {x : Worker Task} (h : WorkerOk history x)
    (hb : x.pc.busy = false) :
    x.begun = history.take x.myGeneration ∧ x.ended = history.take x.myGeneration := by
  have hl := h.logs
  cases hpc : x.pc <;> simp_all [WorkerPc.busy]

/-- A worker at rest may move to any other resting place. -/
theorem WorkerOk.restPc {history : List Task} {x : Worker Task} (h : WorkerOk history x)
    (hb : x.pc.busy = false) {p : WorkerPc Task} (hp : p.busy = false) :
    WorkerOk history { x with pc := p } :=
  .of_rest hp h.le h.ge (h.rest_logs hb)

theorem WorkerOk.wake {history : List Task} {x : Worker Task} (h : WorkerOk history x) :
    WorkerOk history x.wake := by
  unfold Worker.wake
  split
  · next hpc => exact h.restPc (by simp [hpc, WorkerPc.busy]) rfl
  · exact h

theorem unfinished_wake (g : Nat) (x : Worker Task) : x.wake.unfinished g = x.unfinished g := by
  unfold Worker.wake
  cases hpc : x.pc <;> simp [Worker.unfinished, WorkerPc.busy, hpc]

/-- Waking every sleeping worker keeps the invariant. -/
theorem Inv.wakeAll {s : State Task n} (h : Inv s) {d : DispatcherPc}
    (hq : d = .idle ∨ d = .stopping ∨ d = .stopped → s.activeCount = 0)
    (hd : d ≠ .committed ∧ d ≠ .asleep) :
    Inv { s with dispatcher := d, workers := fun w => (s.workers w).wake } := by
  refine ⟨h.generation, h.task, fun w => (h.workers w).wake, ?_, hq, ?_⟩
  · refine h.count.trans (congrArg Finset.card ?_)
    ext w
    simp [unfinished_wake]
  · rintro (h | h)
    · exact absurd h hd.1
    · exact absurd h hd.2

/-- A step of the dispatcher alone. -/
theorem Inv.setDispatcher {s : State Task n} (h : Inv s) {d : DispatcherPc}
    (hq : d = .idle ∨ d = .stopping ∨ d = .stopped → s.activeCount = 0)
    (hn : d = .committed ∨ d = .asleep → s.activeCount = 0 →
      ∃ w, (s.workers w).pc = .toNotify) :
    Inv { s with dispatcher := d } :=
  ⟨h.generation, h.task, h.workers, h.count, hq, hn⟩

theorem Inv.publish {s : State Task n} (h : Inv s) (t : Task) (hd : s.dispatcher = .idle) :
    Inv { s with
      task := some t
      activeCount := n
      generation := s.generation + 1
      dispatcher := .toNotifyAll
      history := s.history ++ [t] } := by
  have h0 := h.quiet (.inl hd)
  refine ⟨by simp [h.generation], by simp, fun w => ?_, ?_, by simp, by simp⟩
  · obtain ⟨hg, hb, hbegun, hended⟩ := h.all_done h0 w
    refine ⟨by simp [hg], by simp [hg], fun hb' => ?_, ?_⟩
    · rw [hb] at hb'
      cases hb'
    · simp only
      cases hpc : (s.workers w).pc <;> simp_all [WorkerPc.busy]
  · have hall : State.unfinished { s with
        task := some t
        activeCount := n
        generation := s.generation + 1
        dispatcher := .toNotifyAll
        history := s.history ++ [t] } = Finset.univ := by
      ext w
      have hg := (h.all_done h0 w).1
      simp [Worker.unfinished, hg, h.generation]
    rw [hall]
    simp

/-- `fetch_sub`: the worker leaves the unfinished ones, and the last one is about to notify. -/
theorem Inv.fetchSub {s : State Task n} (h : Inv s) {w : Fin n}
    (hpc : (s.workers w).pc = .returned) :
    Inv { s.setWorker w { s.workers w with
        pc := if s.activeCount = 1 then .toNotify else .entering } with
      activeCount := s.activeCount - 1 } := by
  obtain ⟨hle, hge, hcur, hlogs⟩ := h.workers w
  have hg : (s.workers w).myGeneration = s.history.length := hcur (by simp [hpc, WorkerPc.busy])
  rw [hpc] at hlogs
  have hw : w ∈ s.unfinished := by simp [Worker.unfinished, hpc, WorkerPc.busy]
  have hpos : 0 < s.activeCount := by
    rw [h.count]
    exact Finset.card_pos.mpr ⟨w, hw⟩
  have hb : (if s.activeCount = 1 then .toNotify else .entering : WorkerPc Task).busy = false := by
    split <;> rfl
  have herase : State.unfinished { s.setWorker w { s.workers w with
      pc := if s.activeCount = 1 then .toNotify else .entering } with
      activeCount := s.activeCount - 1 } = s.unfinished.erase w := by
    ext v
    rw [Finset.mem_erase, State.mem_unfinished, State.mem_unfinished]
    by_cases hv : v = w
    · subst hv
      rw [State.setWorker_same]
      simp [Worker.unfinished, State.setWorker, hg, h.generation, hb]
    · rw [State.setWorker_other s _ hv]
      simp [State.setWorker, hv]
  refine ⟨h.generation, h.task, fun v => ?_, ?_, fun hd => ?_, fun hd h0 => ?_⟩
  · by_cases hv : v = w
    · subst hv
      rw [State.setWorker_same]
      have hlogs' : (s.workers v).begun = s.history ∧ (s.workers v).ended = s.history := hlogs
      refine .of_rest hb hle hge ?_
      show (s.workers v).begun = s.history.take (s.workers v).myGeneration ∧
        (s.workers v).ended = s.history.take (s.workers v).myGeneration
      rw [hg, List.take_length]
      exact hlogs'
    · rw [State.setWorker_other s _ hv]
      exact h.workers v
  · rw [herase, Finset.card_erase_of_mem hw, ← h.count]
  · exact absurd (h.quiet hd) (by omega)
  · have h1 : s.activeCount = 1 := by
      have : s.activeCount - 1 = 0 := h0
      omega
    exact ⟨w, by rw [State.setWorker_same]; simp [h1]⟩

theorem inv_step {s s' : State Task n} (h : Inv s) (hs : Step s s') : Inv s' := by
  cases hs with
  | publish t hd => exact h.publish t hd
  | notifyAll hd => exact h.wakeAll (by simp) (by simp)
  | lock hd => exact h.setDispatcher (by simp) (by simp)
  | loadZero hd h0 => exact h.setDispatcher (fun _ => h0) (by simp)
  | loadBusy hd h0 => exact h.setDispatcher (by simp) (fun _ h0' => absurd h0' h0)
  | sleep hd => exact h.setDispatcher (by simp) (fun _ => h.notifier (.inl hd))
  | spuriousDone hd => exact h.setDispatcher (by simp) (by simp)
  | stop hd =>
    have h0 := h.quiet (.inl hd)
    exact ⟨h.generation, h.task, h.workers, h.count, fun _ => h0, by simp⟩
  | stopNotifyAll hd =>
    exact h.wakeAll (fun _ => h.quiet (.inr (.inl hd))) (by simp)
  | exit w hpc hm hsd =>
    have hb : (s.workers w).pc.busy = false := by simp [hpc, WorkerPc.busy]
    exact h.setWorker ((h.workers w).restPc hb rfl)
      (by simp [Worker.unfinished, hpc, WorkerPc.busy])
      (by simp [hpc])
  | take w t hpc hm hsd hg ht =>
    have hb : (s.workers w).pc.busy = false := by simp [hpc, WorkerPc.busy]
    have hge := (h.workers w).ge
    have hl := (h.workers w).rest_logs hb
    have hgen := h.generation
    have hcut : s.history.take (s.workers w).myGeneration ++ [t] = s.history := by
      have hlast : s.history.getLast? = some t := h.task.symm.trans ht
      obtain ⟨l, hl⟩ := List.getLast?_eq_some_iff.mp hlast
      rw [hl, List.take_left' (by simp [hl] at hge hgen; omega)]
    refine h.setWorker ⟨hgen.le, by simp [hgen], fun _ => hgen, ?_⟩ ?_ (by simp [hpc])
    · exact ⟨by rw [hl.1, hcut], by rw [hl.1, hl.2]⟩
    · simp [Worker.unfinished, hg, WorkerPc.busy]
  | workerSleep w hpc hm hsd hg =>
    have hb : (s.workers w).pc.busy = false := by simp [hpc, WorkerPc.busy]
    exact h.setWorker ((h.workers w).restPc hb rfl)
      (by simp [Worker.unfinished, hpc, WorkerPc.busy])
      (by simp [hpc])
  | spuriousStart w hpc =>
    have hb : (s.workers w).pc.busy = false := by simp [hpc, WorkerPc.busy]
    exact h.setWorker ((h.workers w).restPc hb rfl)
      (by simp [Worker.unfinished, hpc, WorkerPc.busy])
      (by simp [hpc])
  | invoke w t hpc =>
    obtain ⟨hle, hge, hcur, hl⟩ := h.workers w
    rw [hpc] at hl hcur
    refine h.setWorker ⟨hle, hge, fun _ => hcur rfl, ?_⟩ ?_ (by simp [hpc])
    · exact ⟨hl.1, by rw [hl.2, hl.1]⟩
    · simp [Worker.unfinished, hpc, WorkerPc.busy]
  | finish w t hpc =>
    obtain ⟨hle, hge, hcur, hl⟩ := h.workers w
    rw [hpc] at hl hcur
    refine h.setWorker ⟨hle, hge, fun _ => hcur rfl, hl⟩ ?_ (by simp [hpc])
    simp [Worker.unfinished, hpc, WorkerPc.busy]
  | fetchSub w hpc => exact h.fetchSub hpc
  | notifyOne w hpc hm =>
    -- The dispatcher leaves its sleep first, so the notification owed to it is no longer needed.
    have hb : (s.workers w).pc.busy = false := by simp [hpc, WorkerPc.busy]
    have hd : Inv { s with
        dispatcher := if s.dispatcher = .asleep then .toWait else s.dispatcher } := by
      split
      · exact h.setDispatcher (by simp) (by simp)
      · exact h
    refine hd.setWorker (w := w) ((h.workers w).restPc hb rfl)
      (by simp [Worker.unfinished, hpc, WorkerPc.busy]) fun _ => ?_
    simp only
    split
    · simp
    · next hne => exact ⟨hm.2, hne⟩

theorem inv_of_reachable {s : State Task n} (h : Reachable s) : Inv s := by
  induction h with
  | refl => exact inv_init
  | tail _ hs ih => exact inv_step ih hs

/-! ## What a dispatch guarantees -/

/-- The workers still counted are those whose task has not ended or has only just ended. -/
theorem Inv.mem_unfinished_iff {s : State Task n} (h : Inv s) (w : Fin n) :
    w ∈ s.unfinished ↔
      (s.workers w).ended.length < s.history.length ∨ (s.workers w).pc.isReturned = true := by
  obtain ⟨hle, hge, hcur, hlogs⟩ := h.workers w
  rw [State.mem_unfinished, Worker.unfinished, h.generation]
  by_cases hb : (s.workers w).pc.busy = true
  · have hlen : ∀ t, (s.workers w).ended ++ [t] = s.history →
        (s.workers w).ended.length < s.history.length :=
      fun t ht => by simp [← ht]
    cases hpc : (s.workers w).pc with
    | taken t =>
      rw [hpc] at hlogs
      simp [hlen t (by rw [hlogs.2]; exact hlogs.1), WorkerPc.busy]
    | running t =>
      rw [hpc] at hlogs
      simp [hlen t hlogs.2, WorkerPc.busy]
    | returned => simp [WorkerPc.busy, WorkerPc.isReturned]
    | _ => simp [hpc, WorkerPc.busy] at hb
  · have hb : (s.workers w).pc.busy = false := by simpa using hb
    have hret : (s.workers w).pc.isReturned = false := by
      cases hpc : (s.workers w).pc <;> simp_all [WorkerPc.busy, WorkerPc.isReturned]
    rw [((h.workers w).rest_logs hb).2, hb, hret]
    simp

/-- What holds in every state of a pool that runs one call of `run_parallel` after another. -/
structure DispatchOk (s : State Task n) : Prop where
  /-- When no call is in progress every worker has run every call's task, once and in order. -/
  returned : s.dispatcher = .idle →
    ∀ w, (s.workers w).begun = s.history ∧ (s.workers w).ended = s.history
  /-- A worker never runs a task that is not its next call's, and lags by one call at most. -/
  begun : ∀ w, (s.workers w).begun <+: s.history ∧
    s.history.length ≤ (s.workers w).begun.length + 1
  ended : ∀ w, (s.workers w).ended <+: (s.workers w).begun ∧
    (s.workers w).begun.length ≤ (s.workers w).ended.length + 1
  /-- `active_count_` counts the workers that have not finished the current generation. -/
  count : s.activeCount = (Finset.univ.filter fun w =>
    (s.workers w).ended.length < s.history.length ∨ (s.workers w).pc.isReturned = true).card
  generation : ∀ w, (s.workers w).myGeneration ≤ s.generation ∧
    s.generation ≤ (s.workers w).myGeneration + 1
  noLostWakeup : s.dispatcher = .asleep → s.activeCount = 0 →
    ∃ w, (s.workers w).pc = .toNotify

theorem WorkerOk.begun_ended {history : List Task} {x : Worker Task} (h : WorkerOk history x) :
    (x.begun <+: history ∧ history.length ≤ x.begun.length + 1) ∧
      (x.ended <+: x.begun ∧ x.begun.length ≤ x.ended.length + 1) := by
  obtain ⟨hle, hge, hcur, hlogs⟩ := h
  cases hpc : x.pc with
  | taken t =>
    rw [hpc] at hlogs
    rw [hlogs.2, ← hlogs.1]
    simp
  | running t =>
    rw [hpc] at hlogs
    rw [hlogs.1, ← hlogs.2]
    simp
  | returned =>
    rw [hpc] at hlogs
    rw [hlogs.2, hlogs.1]
    simp
  | _ =>
    rw [hpc] at hlogs
    rw [hlogs.2, hlogs.1]
    simp [List.take_prefix]
    omega

/-- `run_parallel` runs its task exactly once on every worker, returns only afterwards, and
cannot sleep through the last worker's notification. -/
theorem dispatch_ok {s : State Task n} (hr : Reachable s) : DispatchOk s := by
  have h := inv_of_reachable hr
  refine ⟨fun hd w => ?_, fun w => ?_, fun w => ?_, ?_, fun w => ?_, fun hd => ?_⟩
  · exact (h.all_done (h.quiet (.inl hd)) w).2.2
  · exact (h.workers w).begun_ended.1
  · exact (h.workers w).begun_ended.2
  · rw [h.count]
    apply congrArg Finset.card
    ext w
    rw [h.mem_unfinished_iff]
    simp
  · rw [h.generation]
    exact ⟨(h.workers w).le, (h.workers w).ge⟩
  · exact h.notifier (.inr hd)

/-- Two workers at rest after the calls `history`. -/
def rested (history : List Nat) : State Nat 2 where
  workers := fun _ =>
    { myGeneration := history.length, begun := history, ended := history }
  task := history.getLast?
  generation := history.length
  history := history

theorem reaches_rested {r s : State Nat 2} {history : List Nat}
    (hr : Relation.ReflTransGen Step r s)
    (hw : ∀ w, s.workers w =
      { myGeneration := history.length, begun := history, ended := history })
    (hd : s.dispatcher = .idle) (ht : s.task = history.getLast?) (ha : s.activeCount = 0)
    (hg : s.generation = history.length) (hs : s.shutdown = false) (hh : s.history = history) :
    Relation.ReflTransGen Step r (rested history) := by
  have heq : s = rested history := by
    cases s
    simp_all [rested, funext_iff]
  rwa [← heq]

/-- A further call of two workers at rest: they take the task, the dispatcher sleeps, and the worker
that finishes last wakes it. -/
theorem rested_call (history : List Nat) (t : Nat) :
    Relation.ReflTransGen Step (rested history) (rested (history ++ [t])) := by
  have published := Relation.ReflTransGen.single (Step.publish (s := rested history) t rfl)
  have taken := ((published.tail (.notifyAll rfl)).tail
    (.take 1 t rfl ⟨nofun, nofun⟩ rfl (Nat.lt_succ_self _) rfl)).tail
    (.take 0 t rfl ⟨nofun, nofun⟩ rfl (Nat.lt_succ_self _) rfl)
  have asleep := (((taken.tail (.invoke 0 t rfl)).tail (.lock rfl)).tail
    (.loadBusy rfl two_ne_zero)).tail (.sleep rfl)
  have finished := (((asleep.tail (.invoke 1 t rfl)).tail (.finish 0 t rfl)).tail
    (.fetchSub 0 rfl)).tail (.finish 1 t rfl)
  have returned := (((finished.tail (.fetchSub 1 rfl)).tail
    (.notifyOne 1 rfl ⟨nofun, nofun⟩)).tail (.lock rfl)).tail (.loadZero rfl rfl)
  refine reaches_rested returned (Fin.forall_fin_two.mpr ⟨?_, ?_⟩) rfl ?_ rfl ?_ rfl rfl
  all_goals simp [rested, State.setWorker, Worker.wake]

/-- Two calls on two workers. -/
theorem dispatch_ok_two_calls : Reachable (rested [7, 8]) ∧ DispatchOk (rested [7, 8]) := by
  have run : Reachable (rested [7, 8]) := (rested_call [] 7).trans (rested_call [7] 8)
  exact ⟨run, dispatch_ok run⟩

end HashJoin.ThreadPool
