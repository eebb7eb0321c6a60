import HashJoin.FilterThreadPoolProgress
import HashJoin.HashTable
import HashJoin.InnerColumnProof
import HashJoin.Lib.PoolTrace
import HashJoin.ThreadPoolProgress

/-!
# The orders of the threads

Where the threads of a pool work on shared memory, the order of their accesses is that of a
schedule. The pools allow these orders and no others: the accesses of a run are, call by call, an
interleaving of the programs of the threads, and each interleaving is that of some run.
-/

namespace HashJoin.ThreadPool

open Interleave PoolTrace

variable {Task : Type} {n : Nat}

/-- Every worker has the task of each call to run. -/
def pool (Task : Type) (n : Nat) : Pool (State Task n) Task Task n where
  Step := Step
  history s := s.history
  begun s w := (s.workers w).begun
  ended s w := (s.workers w).ended
  Idle s := s.dispatcher = .idle
  jobs _ t := [t]

/-! ## The logs of a step -/

theorem logged_wake (x : Worker Task) : Logged Worker.begun Worker.ended x x.wake := by
  refine .same ?_
  unfold Worker.wake
  split <;> rfl

theorem step_logged {s s' : State Task n} (hs : Step s s') (w : Fin n) :
    Logged Worker.begun Worker.ended (s.workers w) (s'.workers w) := by
  cases hs with
  | notifyAll hd => exact logged_wake _
  | stopNotifyAll hd => exact logged_wake _
  | exit v hpc hm hsd => exact .updateSame rfl (by rfl) w
  | take v t hpc hm hsd hg ht => exact .updateSame rfl (by rfl) w
  | workerSleep v hpc hm hsd hg => exact .updateSame rfl (by rfl) w
  | spuriousStart v hpc => exact .updateSame rfl (by rfl) w
  | invoke v t hpc =>
    refine .update rfl ?_ w
    exact ⟨List.prefix_append _ _, .inr rfl⟩
  | finish v t hpc => exact .updateSame rfl (by rfl) w
  | fetchSub v hpc => exact .updateSame rfl (by rfl) w
  | notifyOne v hpc hm => exact .updateSame rfl (by rfl) w
  | _ => exact .same rfl

theorem dispatches : (pool Task n).Dispatches Reachable init where
  start := .refl
  history_start := rfl
  begun_start _ := rfl
  ok hr hs := .tail hr hs
  begun _ hs t := (step_logged hs t).1
  single _ hs t := (step_logged hs t).2
  ended hr t := ((inv_of_reachable hr).workers t).begun_ended.2.1.length_le
  calls _ hs := by
    cases hs with
    | publish t hd => exact .inr ⟨hd, t, rfl⟩
    | _ => exact .inl rfl
  idle hr hidle t := by
    have hi := inv_of_reachable hr
    obtain ⟨-, -, hbegun, hended⟩ := hi.all_done (hi.quiet (.inl hidle)) t
    refine ⟨hbegun.trans ?_, hended.trans hbegun.symm⟩
    exact (List.flatMap_singleton' _).symm

/-! ## Every order occurs -/

theorem works_same {s s' : State Task n} (h : Relation.ReflTransGen Works s s') :
    s'.history = s.history ∧ s'.shutdown = s.shutdown := by
  induction h with
  | refl => exact ⟨rfl, rfl⟩
  | tail _ hstep ih =>
    obtain ⟨hhistory, hshutdown⟩ := step_same hstep.step hstep.notStarts
    exact ⟨hhistory.trans ih.1, hshutdown.trans ih.2⟩

theorem Reachable.works {s s' : State Task n} (hr : Reachable s)
    (h : Relation.ReflTransGen Works s s') : Reachable s' :=
  hr.trans (Relation.ReflTransGen.mono (fun _ _ hw => hw.step) _ _ h)

/-- Each worker gets to the task of the last call while none ends it. -/
theorem exists_all_begun {s : State Task n} (hr : Reachable s) (hsd : s.shutdown = false) :
    ∃ s', Relation.ReflTransGen Begins s s' ∧ ∀ w, (s'.workers w).begun = s.history := by
  obtain ⟨m, s', hrun, hrests⟩ := Progress.exists_rests
    (fun s s' (h : Begins s s') => works_potential s s' h.works) (fun _ _ => False) s
  have hworks : Relation.ReflTransGen Works s s' :=
    Relation.ReflTransGen.mono (fun _ _ h => h.works) _ _ hrun.steps
  obtain ⟨hhistory, hsd'⟩ := works_same hworks
  have hi := inv_of_reachable (hr.works hworks)
  have hs := settled_of_reachable (hr.works hworks)
  refine ⟨s', hrun.steps, fun w => ?_⟩
  rw [← hhistory]
  rcases rests_worker hi hrests w with hpc | hpc | ⟨t, hpc⟩
  · -- It sleeps only when it has run the task.
    have hseen : ¬ (s'.workers w).myGeneration < s'.generation := fun hlt => by
      have hd := (hs.asleep w hpc).1 hlt
      rcases rests_dispatcher hrests with h | h | h <;> simp [hd] at h
    have hlogs := (hi.workers w).rest_logs (by simp [hpc, WorkerPc.busy])
    have hgen := hi.generation
    rw [List.take_of_length_le (by omega)] at hlogs
    exact hlogs.1
  · have hexited := hs.exited w hpc
    rw [hsd', hsd] at hexited
    cases hexited
  · have hlogs := (hi.workers w).logs
    rw [hpc] at hlogs
    exact hlogs.1

/-- From there the call returns, and no worker begins another task. -/
theorem exists_return {s : State Task n} (hr : Reachable s) (hsd : s.shutdown = false)
    (hbegun : ∀ w, (s.workers w).begun = s.history) :
    ∃ s', Relation.ReflTransGen
        (fun a b => Step a b ∧ (pool Task n).begun b = (pool Task n).begun a) s s' ∧
      s'.dispatcher = .idle ∧ s'.history = s.history := by
  obtain ⟨m, s', hrun, hrests⟩ := Progress.exists_rests works_potential (fun _ _ => False) s
  have hsteps := hrun.steps
  obtain ⟨hhistory, hsd'⟩ := works_same hsteps
  have hr' := hr.works hsteps
  refine ⟨s', ?_, ?_, hhistory⟩
  · clear hrun hrests hhistory hsd' hr'
    suffices h : Relation.ReflTransGen
        (fun a b => Step a b ∧ (pool Task n).begun b = (pool Task n).begun a) s s' ∧
        ∀ w, (s'.workers w).begun = s.history from h.1
    induction hsteps with
    | refl => exact ⟨.refl, hbegun⟩
    | @tail a b hsteps hstep ih =>
      obtain ⟨ih, hall⟩ := ih
      have hsame : ∀ w, (b.workers w).begun = s.history := fun w => by
        have hb := ((inv_of_reachable (hr.works (hsteps.tail hstep))).workers w).begun_ended.1.1
        rw [(works_same (hsteps.tail hstep)).1] at hb
        have hgrow := (step_logged hstep.step w).1
        rw [hall w] at hgrow
        exact (hgrow.eq_of_length (le_antisymm hgrow.length_le hb.length_le)).symm
      exact ⟨ih.tail ⟨hstep.step, funext fun w => (hsame w).trans (hall w).symm⟩, hsame⟩
  · rcases (settled_of_reachable hr').rests (inv_of_reachable hr') hrests with hd | ⟨hd, -⟩
    · exact hd
    · have := (settled_of_reachable hr').shutdown.mpr (.inr hd)
      rw [hsd', hsd] at this
      cases this

theorem serves : (pool Task n).Serves Reachable := by
  intro s hr hidle t
  have hi := inv_of_reachable hr
  have hdone := hi.all_done (hi.quiet (.inl hidle))
  have hsd : s.shutdown = false := by
    have := (settled_of_reachable hr).shutdown
    simpa [show s.dispatcher = .idle from hidle] using this
  have hpublish := Step.publish t hidle
  have hr₀ : Reachable _ := hr.tail hpublish
  obtain ⟨s₁, hbegins, hbegun⟩ := exists_all_begun hr₀ hsd
  have hworks : Relation.ReflTransGen Works _ s₁ :=
    Relation.ReflTransGen.mono (fun _ _ h => h.works) _ _ hbegins
  obtain ⟨hhistory₁, hsd₁⟩ := works_same hworks
  obtain ⟨s₂, hends, hidle₂, hhistory₂⟩ := exists_return (hr₀.works hworks) (hsd₁.trans hsd)
    fun w => (hbegun w).trans hhistory₁.symm
  refine ⟨s₁, s₂, .head ⟨hpublish, rfl⟩ ?_, fun w => ?_, hends, hidle₂,
    hhistory₂.trans hhistory₁⟩
  · exact Relation.ReflTransGen.mono (fun _ _ h => ⟨h.works.step, funext h.ended⟩) _ _ hbegins
  · show (s₁.workers w).begun = (s.workers w).begun ++ [t]
    rw [hbegun w, (hdone w).2.2.1]

theorem pool_programs {α : Type} (prog : Nat → Task → List α) (t : Task) :
    (pool Task n).programs prog t = fun w => prog w t :=
  funext fun w => List.flatMap_singleton (prog w) t

/-- What the workers of a pool do, in any run over any number of calls of `run_parallel`: when the
last call has returned, their actions have come in the order of some schedule for each call, one
call after another. Each such order is that of a run. -/
theorem run_parallel_orders {α : Type} (prog : Nat → Task → List α) (history : List Task)
    (trace : List (Nat × α)) :
    (∃ s left, (pool Task n).Run prog init s left trace ∧ s.dispatcher = .idle ∧
      s.history = history) ↔
      ∃ calls : List (Task × List Nat), calls.map Prod.fst = history ∧
        trace = calls.flatMap fun x => complete n (fun w => prog w x.1) x.2 := by
  refine (dispatches.run_iff serves rfl).trans ?_
  simp only [Pool.sequential, pool_programs]

/-- What the threads of a pool leave of one call that partitions the entries. -/
theorem partitionRows_of_run (env : BuildEnv) (global : GlobalAllocator)
    (entries : Nat → List Entry) {s : State Unit n} {left : Fin n → List PartitionStep}
    {trace : List (Nat × PartitionStep)}
    (hrun : (pool Unit n).Run (fun t _ => partitionSteps (entries t)) init s left trace)
    (hidle : s.dispatcher = .idle) (hhistory : s.history = [()]) :
    ∃ sched, trace.foldl PartitionState.step
        { global := global
          threads := fun _ => {}
          entry := fun _ => {}
          memory := env.memory } =
      partitionRows { env with partitioning := sched } n global entries := by
  obtain ⟨-, calls, hcalls, htrace⟩ := dispatches.sequential hrun hidle
  have hone : calls.map Prod.fst = [()] := hcalls.trans hhistory
  obtain ⟨⟨call, sched⟩, rfl⟩ :=
    List.length_eq_one_iff.mp (by simpa using congrArg List.length hone)
  refine ⟨sched, ?_⟩
  rw [htrace, Pool.sequential, List.flatMap_singleton, pool_programs, partitionRows]

end HashJoin.ThreadPool

namespace HashJoin.FilterThreadPool

open Interleave PoolTrace

variable {Fn : Type} {n : Nat}

/-- Each thread has its range of every call to run, unless that is empty. -/
def pool (Fn : Type) (n : Nat) : Pool (State Fn n) (Fn × Nat) (Fn × Nat × Nat) n where
  Step := Step
  history s := s.history
  begun s i := (s.workers i).begun
  ended s i := (s.workers i).ended
  Idle s := s.caller = .idle
  jobs i c := (rangeOf n i c).toList

/-! ## The logs of a step -/

theorem logged_notifyWorker (s : State Fn n) (i j : Fin n) :
    Logged Worker.begun Worker.ended (s.workers j) ((s.notifyWorker i).workers j) := by
  unfold State.notifyWorker
  split
  · exact .updateSame rfl (by rfl) j
  · exact .same rfl

theorem step_logged {s s' : State Fn n} (hs : Step s s') (j : Fin n) :
    Logged Worker.begun Worker.ended (s.workers j) (s'.workers j) := by
  cases hs with
  | notify i hc => exact logged_notifyWorker s i j
  | notifyDestructed i hc => exact logged_notifyWorker s i j
  | exit i hpc hd => exact .updateSame rfl (by rfl) j
  | begin i hpc hd hp => exact .updateSame rfl (by rfl) j
  | sleep i hpc hd hp => exact .updateSame rfl (by rfl) j
  | spurious i hpc => exact .updateSame rfl (by rfl) j
  | readBegin i hpc => exact .updateSame rfl (by rfl) j
  | readEnd i b hpc => exact .updateSame rfl (by rfl) j
  | callFunction i b e f hpc hlt hf =>
    refine .update rfl ?_ j
    exact ⟨List.prefix_append _ _, .inr rfl⟩
  | skip i b e hpc hlt => exact .updateSame rfl (by rfl) j
  | functionReturns i f b e hpc => exact .updateSame rfl (by rfl) j
  | finish i hpc => exact .updateSame rfl (by rfl) j
  | notifyDone i hpc =>
    have hw : ((s.notifyCaller i).setPc i .entering).workers =
        Function.update s.workers i { s.workers i with pc := .entering } := by
      simp [State.setPc, State.setWorker]
    exact .updateSame hw (by rfl) j
  | _ => exact .same rfl

theorem step_history {s s' : State Fn n} (hs : Step s s') :
    s'.history = s.history ∨ s.caller = .idle ∧ ∃ c, s'.history = s.history ++ [c] := by
  cases hs with
  | call f m hc => exact .inr ⟨hc, (f, m), rfl⟩
  | notify i hc => exact .inl (s.notifyWorker_history i)
  | notifyDestructed i hc => exact .inl (s.notifyWorker_history i)
  | notifyDone i hpc => exact .inl (s.notifyCaller_history i)
  | _ => exact .inl rfl

/-- A thread invokes its ranges of the calls in order and nothing else, one at a time. -/
theorem Inv.invoked {s : State Fn n} (h : Inv s) (i : Fin n) :
    (s.workers i).begun <+: ranges n i s.history ∧
      (s.workers i).ended.length ≤ (s.workers i).begun.length := by
  have hw := h.workers i
  by_cases hp : (s.hasFunction i && !s.finished i) = true
  · obtain ⟨-, prev, c, hhistory, hon⟩ := hw.working hp
    obtain ⟨hended, hbegun, -⟩ := hon.invoked
    exact ⟨hhistory ▸ hbegun, hended.length_le⟩
  · obtain ⟨-, hbegun, hended⟩ := hw.done (by simpa using hp)
    rw [hended, hbegun]
    refine And.intro ?_ le_rfl
    refine ranges_prefix n i ?_
    split
    · exact List.dropLast_prefix _
    · exact List.prefix_rfl

theorem Inv.returned {s : State Fn n} (h : Inv s) (hidle : s.caller = .idle) (i : Fin n) :
    (s.workers i).begun = ranges n i s.history ∧ (s.workers i).ended = ranges n i s.history :=
  (h.idle i (by rw [hidle]; rfl) (by rw [hidle]; rfl)).2.2

theorem dispatches (m : Nat) : (pool Fn n).Dispatches Reachable (init m) where
  start := ⟨m, .refl⟩
  history_start := rfl
  begun_start _ := rfl
  ok hr hs := hr.step hs
  begun _ hs i := (step_logged hs i).1
  single _ hs i := (step_logged hs i).2
  ended hr i := ((inv_of_reachable hr).invoked i).2
  calls _ hs := step_history hs
  idle hr hidle i := by
    obtain ⟨hbegun, hended⟩ := (inv_of_reachable hr).returned hidle i
    exact ⟨hbegun.trans (List.filterMap_eq_flatMap_toList _ _), hended.trans hbegun.symm⟩

/-! ## Every order occurs -/

theorem works_same {s s' : State Fn n} (h : Relation.ReflTransGen Works s s') :
    s'.history = s.history ∧ s'.caller.stops = s.caller.stops := by
  induction h with
  | refl => exact ⟨rfl, rfl⟩
  | tail _ hstep ih =>
    obtain ⟨hhistory, hstops⟩ := step_same hstep.step hstep.notStarts
    exact ⟨hhistory.trans ih.1, hstops.trans ih.2⟩

theorem Reachable.works {s s' : State Fn n} (hr : Reachable s)
    (h : Relation.ReflTransGen Works s s') : Reachable s' := by
  induction h with
  | refl => exact hr
  | tail _ hstep ih => exact ih.step hstep.step

/-- Each thread gets to its range of the last call while none returns from it. -/
theorem exists_all_begun {s : State Fn n} (hr : Reachable s) (hstops : s.caller.stops = false) :
    ∃ s', Relation.ReflTransGen Begins s s' ∧
      ∀ i, (s'.workers i).begun = ranges n i s.history := by
  obtain ⟨m, s', hrun, hrests⟩ := Progress.exists_rests
    (fun s s' (h : Begins s s') => works_potential s s' h.works) (fun _ _ => False) s
  have hworks : Relation.ReflTransGen Works s s' :=
    Relation.ReflTransGen.mono (fun _ _ h => h.works) _ _ hrun.steps
  obtain ⟨hhistory, hstops'⟩ := works_same hworks
  have hi := inv_of_reachable (hr.works hworks)
  have hcaller := (settled_of_reachable (hr.works hworks)).rests_caller hi hrests
  refine ⟨s', hrun.steps, fun i => ?_⟩
  rw [← hhistory]
  have hw := hi.workers i
  rcases rests_worker hi hrests i with hpc | hpc | ⟨f, b, e, hpc⟩
  · -- It sleeps without work, and the caller has armed all threads.
    have hunarmed : s'.caller.unarmed i = false ∧ s'.caller.owesNotify i = false := by
      rcases hcaller with hc | ⟨j, hc⟩ | ⟨j, hc, -⟩ | hc <;>
        simp [hc, CallerPc.unarmed, CallerPc.owesNotify]
    have hrest : (s'.hasFunction i && !s'.finished i) = false := by
      by_contra hp
      have howes := hw.asleep hpc (by simpa using hp)
      rw [hunarmed.2] at howes
      cases howes
    obtain ⟨-, hbegun, -⟩ := hw.done hrest
    rw [hunarmed.1] at hbegun
    exact hbegun
  · have hexited := hw.exited (.inr hpc)
    rw [hstops', hstops] at hexited
    cases hexited
  · obtain ⟨-, prev, c, hprev, hon, -⟩ := hi.holding (i := i) (by simp [hpc, WorkerPc.holdsMutex])
    rw [WorkingOn, hpc] at hon
    rw [hprev]
    exact hon.2.1

/-- From there the call returns, and no thread begins another range. -/
theorem exists_return {s : State Fn n} (hr : Reachable s) (hstops : s.caller.stops = false)
    (hbegun : ∀ i, (s.workers i).begun = ranges n i s.history) :
    ∃ s', Relation.ReflTransGen
        (fun a b => Step a b ∧ (pool Fn n).begun b = (pool Fn n).begun a) s s' ∧
      s'.caller = .idle ∧ s'.history = s.history := by
  obtain ⟨m, s', hrun, hrests⟩ := Progress.exists_rests works_potential (fun _ _ => False) s
  have hsteps := hrun.steps
  obtain ⟨hhistory, hstops'⟩ := works_same hsteps
  have hr' := hr.works hsteps
  refine ⟨s', ?_, ?_, hhistory⟩
  · clear hrun hrests hhistory hstops' hr'
    suffices h : Relation.ReflTransGen
        (fun a b => Step a b ∧ (pool Fn n).begun b = (pool Fn n).begun a) s s' ∧
        ∀ i, (s'.workers i).begun = ranges n i s.history from h.1
    induction hsteps with
    | refl => exact ⟨.refl, hbegun⟩
    | @tail a b hsteps hstep ih =>
      obtain ⟨ih, hall⟩ := ih
      have hsame : ∀ i, (b.workers i).begun = ranges n i s.history := fun i => by
        have hb := ((inv_of_reachable (hr.works (hsteps.tail hstep))).invoked i).1
        rw [(works_same (hsteps.tail hstep)).1] at hb
        have hgrow := (step_logged hstep.step i).1
        rw [hall i] at hgrow
        exact (hgrow.eq_of_length (le_antisymm hgrow.length_le hb.length_le)).symm
      exact ⟨ih.tail ⟨hstep.step, funext fun i => (hsame i).trans (hall i).symm⟩, hsame⟩
  · rcases (settled_of_reachable hr').rests (inv_of_reachable hr') hrests with hc | ⟨hc, -⟩
    · exact hc
    · rw [← hstops', hc] at hstops
      cases hstops

theorem serves : (pool Fn n).Serves Reachable := by
  rintro s hr hidle ⟨f, m⟩
  have hidle : s.caller = .idle := hidle
  have hcall := Step.call f m hidle
  have hr₀ : Reachable _ := hr.step hcall
  obtain ⟨s₁, hbegins, hbegun⟩ := exists_all_begun hr₀ rfl
  have hworks : Relation.ReflTransGen Works _ s₁ :=
    Relation.ReflTransGen.mono (fun _ _ h => h.works) _ _ hbegins
  obtain ⟨hhistory₁, hstops₁⟩ := works_same hworks
  obtain ⟨s₂, hends, hidle₂, hhistory₂⟩ := exists_return (hr₀.works hworks) hstops₁
    fun i => (hbegun i).trans (congrArg (ranges n i) hhistory₁.symm)
  refine ⟨s₁, s₂, .head ⟨hcall, rfl⟩ ?_, fun i => ?_, hends, hidle₂, hhistory₂.trans hhistory₁⟩
  · exact Relation.ReflTransGen.mono (fun _ _ h => ⟨h.works.step, funext h.ended⟩) _ _ hbegins
  · show (s₁.workers i).begun = (s.workers i).begun ++ (rangeOf n i (f, m)).toList
    rw [hbegun i, ranges_append, ((inv_of_reachable hr).returned hidle i).1]

/-- The accesses of thread `i` in `run(function, num_tasks)`, which takes those of `prog` for its
range. -/
def programs {α : Type} (n : Nat) (prog : Fn × Nat × Nat → List α) (c : Fn × Nat) (i : Nat) :
    List α :=
  (rangeOf n i c).elim [] prog

theorem pool_programs {α : Type} (prog : Fn × Nat × Nat → List α) (c : Fn × Nat) :
    (pool Fn n).programs (fun _ => prog) c = programs n prog c := by
  funext i
  show (rangeOf n i c).toList.flatMap prog = (rangeOf n i c).elim [] prog
  cases rangeOf n i c <;> simp

/-- What the threads of a pool do, in any run over any number of calls of `run`: when the last call
has returned, their actions have come in the order of some schedule for each call, one call after
another. Each such order is that of a run. -/
theorem run_orders {α : Type} (prog : Fn × Nat × Nat → List α) (numTasks : Nat)
    (history : List (Fn × Nat)) (trace : List (Nat × α)) :
    (∃ s left, (pool Fn n).Run (fun _ => prog) (init numTasks) s left trace ∧
      s.caller = .idle ∧ s.history = history) ↔
      ∃ calls : List ((Fn × Nat) × List Nat), calls.map Prod.fst = history ∧
        trace = calls.flatMap fun x => complete n (programs n prog x.1) x.2 := by
  refine ((dispatches numTasks).run_iff serves rfl).trans ?_
  simp only [Pool.sequential, pool_programs]

/-! ## Tasks that write bytes -/

/-- The writes of a task on its range. -/
def writes (job : (Nat → Nat → Except EvalFault (List ByteWrite)) × Nat × Nat) : List ByteWrite :=
  match job.1 job.2.1 job.2.2 with
  | .ok writes => writes
  | .error _ => []

theorem run_eq_foldlM {task : Nat → Nat → Except EvalFault (List ByteWrite)} {numTasks : Nat}
    (hok : ∀ i < n, ∃ ws, program n task numTasks i = .ok ws) (sched : List Nat)
    (bytes : List UInt8) : run n sched task numTasks bytes =
      (complete n (programs n writes (task, numTasks)) sched).foldlM
        (fun bytes w => w.2.store bytes) bytes := by
  have hprogram : ∀ i < n, program n task numTasks i =
      .ok (programs n writes (task, numTasks) i) := by
    intro i hi
    obtain ⟨ws, hws⟩ := hok i hi
    unfold program at hws ⊢
    unfold programs
    cases hrange : rangeOf n i (task, numTasks) with
    | none => rfl
    | some job =>
      obtain ⟨f, b, e⟩ := job
      simp only [hrange] at hws
      simp [writes, hws]
  have hmap : (List.range n).mapM (program n task numTasks) =
      .ok ((List.range n).map (programs n writes (task, numTasks))) :=
    mapM_eq_map fun i hi => hprogram i (List.mem_range.mp hi)
  have hget : ∀ i < n, ((List.range n).map (programs n writes (task, numTasks))).getD i [] =
      programs n writes (task, numTasks) i := fun i hi => by simp [hi]
  unfold run
  rw [hmap, ok_bind, complete_congr hget]

/-- The bytes that a run leaves are those of its calls one after another. -/
theorem run_bytes {s : State (Nat → Nat → Except EvalFault (List ByteWrite)) n} {numTasks : Nat}
    {left : Fin n → List ByteWrite} {trace : List (Nat × ByteWrite)}
    (hrun : (pool _ n).Run (fun _ => writes) (init numTasks) s left trace)
    (hidle : s.caller = .idle)
    (hok : ∀ c ∈ s.history, ∀ i < n, ∃ ws, program n c.1 c.2 i = .ok ws) (bytes : List UInt8) :
    ∃ calls : List (_ × List Nat), calls.map Prod.fst = s.history ∧
      trace.foldlM (fun bytes w => w.2.store bytes) bytes =
        calls.foldlM (fun bytes x => run n x.2 x.1.1 x.1.2 bytes) bytes := by
  obtain ⟨-, calls, hcalls, rfl⟩ := (dispatches numTasks).sequential hrun hidle
  refine ⟨calls, hcalls, ?_⟩
  have hok : ∀ c ∈ calls.map Prod.fst, ∀ i < n, ∃ ws, program n c.1 c.2 i = .ok ws := by
    rw [hcalls]
    exact hok
  simp only [Pool.sequential, pool_programs]
  clear hrun hcalls
  induction calls generalizing bytes with
  | nil => rfl
  | cons x calls ih =>
    have hhead := run_eq_foldlM (hok x.1 (by simp)) x.2 bytes
    rw [List.flatMap_cons, List.foldlM_append, List.foldlM_cons, hhead]
    refine congrArg _ (funext fun bytes => ih bytes fun c hc => hok c ?_)
    rw [List.map_cons]
    exact List.mem_cons_of_mem _ hc

end HashJoin.FilterThreadPool
