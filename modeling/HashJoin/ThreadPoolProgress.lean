import HashJoin.ThreadPool
import HashJoin.Lib.Owners
import HashJoin.Lib.Progress

/-!
# Calls of the thread pool return

`run_parallel` and the destructor wait for the workers, and the workers wait for them. Each step
that is no spurious wakeup brings the pool nearer to a state where every worker sleeps and no call
is in progress, or where every worker has left its loop and can be joined.
-/

namespace HashJoin.ThreadPool

variable {Task : Type} {n : Nat}

/-- The dispatcher enters `run_parallel` or the destructor. -/
def Starts (s s' : State Task n) : Prop := s.dispatcher = .idle ∧ s'.dispatcher ≠ .idle

/-- A wait wakes up without a notification. -/
def Wakes (s s' : State Task n) : Prop :=
  (s.dispatcher = .asleep ∧ s'.dispatcher = .toWait ∧ s'.workers = s.workers) ∨
    ((∃ w, (s.workers w).pc = .asleep ∧ (s'.workers w).pc = .entering) ∧
      s'.dispatcher = s.dispatcher)

/-- A step of what is in progress. -/
structure Works (s s' : State Task n) : Prop where
  step : Step s s'
  notStarts : ¬ Starts s s'
  notWakes : ¬ Wakes s s'

/-- A spurious wakeup. -/
structure Disturbs (s s' : State Task n) : Prop where
  step : Step s s'
  wakes : Wakes s s'

theorem Wakes.not_starts {s s' : State Task n} (h : Wakes s s') : ¬ Starts s s' := by
  rintro ⟨hidle, hne⟩
  rcases h with ⟨hasleep, -⟩ | ⟨-, hd⟩
  · rw [hidle] at hasleep
    cases hasleep
  · exact hne (hd.trans hidle)

/-- Only a call is added to the history, and only the destructor shuts down. -/
theorem step_same {s s' : State Task n} (hs : Step s s') (hstarts : ¬ Starts s s') :
    s'.history = s.history ∧ s'.shutdown = s.shutdown := by
  cases hs with
  | publish t hd => exact absurd ⟨hd, by simp⟩ hstarts
  | stop hd => exact absurd ⟨hd, by simp⟩ hstarts
  | _ => exact ⟨rfl, rfl⟩

/-! ## The potential -/

/-- The steps that a worker at this place can take before it sleeps, the wakeup that it may cause
included. -/
def WorkerPc.weight : WorkerPc Task → Nat
  | .asleep | .exited => 0
  | .entering => 1
  | .toNotify => 5
  | .returned => 6
  | .running _ => 7
  | .taken _ => 8

def Worker.weight (g : Nat) (x : Worker Task) : Nat :=
  x.pc.weight + if x.myGeneration < g then 8 else 0

def DispatcherPc.weight (n : Nat) : DispatcherPc → Nat
  | .idle | .asleep | .stopped => 0
  | .committed => 1
  | .holding => 2
  | .toWait => 3
  | .toNotifyAll => n + 4
  | .stopping => n + 1

def State.potential (s : State Task n) : Nat :=
  s.dispatcher.weight n + ∑ w, (s.workers w).weight s.generation

theorem Worker.weight_pc (g : Nat) (x : Worker Task) (pc : WorkerPc Task) :
    Worker.weight g { x with pc := pc } + x.pc.weight = x.weight g + pc.weight := by
  simp only [Worker.weight]
  omega

theorem Worker.weight_wake (g : Nat) (x : Worker Task) : x.wake.weight g ≤ x.weight g + 1 := by
  unfold Worker.wake
  split
  · next hpc => simp [Worker.weight, hpc, WorkerPc.weight]; omega
  · omega

theorem sum_weight_wake (g : Nat) (workers : Fin n → Worker Task) :
    ∑ w, (workers w).wake.weight g ≤ ∑ w, (workers w).weight g + n :=
  calc ∑ w, (workers w).wake.weight g
    _ ≤ ∑ w : Fin n, ((workers w).weight g + 1) :=
      Finset.sum_le_sum fun w _ => Worker.weight_wake g (workers w)
    _ = ∑ w, (workers w).weight g + n := by simp [Finset.sum_add_distrib]

/-- The dispatcher alone moves. -/
theorem State.potential_dispatcher (s : State Task n) (d : DispatcherPc) :
    State.potential { s with dispatcher := d } + s.dispatcher.weight n =
      s.potential + d.weight n := by
  unfold potential
  simp only
  omega

/-- The dispatcher moves and wakes the workers. -/
theorem State.potential_wake (s : State Task n) (d : DispatcherPc) :
    State.potential { s with dispatcher := d, workers := fun w => (s.workers w).wake } +
        s.dispatcher.weight n ≤ s.potential + (d.weight n + n) := by
  have hsum := sum_weight_wake s.generation s.workers
  unfold potential
  simp only
  omega

/-- A worker moves. -/
theorem State.potential_setWorker (s : State Task n) (w : Fin n) (x : Worker Task) :
    (s.setWorker w x).potential + (s.workers w).weight s.generation =
      s.potential + x.weight s.generation := by
  have hsum := Owners.sum_update Finset.univ s.workers (Worker.weight s.generation)
    (Finset.mem_univ w) x
  unfold potential setWorker
  simp only
  omega

theorem State.potential_setPc (s : State Task n) (w : Fin n) (pc : WorkerPc Task) :
    (s.setWorker w { s.workers w with pc := pc }).potential + (s.workers w).pc.weight =
      s.potential + pc.weight := by
  have hmove := s.potential_setWorker w { s.workers w with pc := pc }
  have hpc := (s.workers w).weight_pc s.generation pc
  dsimp only at hmove hpc ⊢
  omega

theorem State.potential_lt {s : State Task n} {w : Fin n} {x : Worker Task}
    (hlt : x.weight s.generation < (s.workers w).weight s.generation) :
    (s.setWorker w x).potential < s.potential := by
  have hmove := s.potential_setWorker w x
  omega

/-- A step of the pool begins a call, is a spurious wakeup or lowers the potential. -/
theorem step_potential {s s' : State Task n} (hs : Step s s') :
    Starts s s' ∨ (Wakes s s' ∧ s'.potential ≤ s.potential + 3) ∨ s'.potential < s.potential := by
  cases hs with
  | publish t hd => exact .inl ⟨hd, by simp⟩
  | stop hd => exact .inl ⟨hd, by simp⟩
  | spuriousDone hd =>
    have hmove := s.potential_dispatcher .toWait
    rw [hd] at hmove
    exact .inr (.inl ⟨.inl ⟨hd, rfl, rfl⟩, hmove.le⟩)
  | spuriousStart w hpc =>
    have hmove := s.potential_setPc w .entering
    rw [hpc] at hmove
    exact .inr (.inl ⟨.inr ⟨⟨w, hpc, by simp⟩, rfl⟩, hmove.le.trans (by simp [WorkerPc.weight])⟩)
  | notifyAll hd =>
    have hmove := s.potential_wake .toWait
    rw [hd] at hmove
    simp only [DispatcherPc.weight] at hmove
    exact .inr (.inr (by omega))
  | stopNotifyAll hd =>
    have hmove := s.potential_wake .stopped
    rw [hd] at hmove
    simp only [DispatcherPc.weight] at hmove
    exact .inr (.inr (by omega))
  | lock hd =>
    have hmove := s.potential_dispatcher .holding
    rw [hd] at hmove
    simp only [DispatcherPc.weight] at hmove
    exact .inr (.inr (by omega))
  | loadZero hd h0 =>
    have hmove := s.potential_dispatcher .idle
    rw [hd] at hmove
    simp only [DispatcherPc.weight] at hmove
    exact .inr (.inr (by omega))
  | loadBusy hd h0 =>
    have hmove := s.potential_dispatcher .committed
    rw [hd] at hmove
    simp only [DispatcherPc.weight] at hmove
    exact .inr (.inr (by omega))
  | sleep hd =>
    have hmove := s.potential_dispatcher .asleep
    rw [hd] at hmove
    simp only [DispatcherPc.weight] at hmove
    exact .inr (.inr (by omega))
  | exit w hpc hm hsd =>
    refine .inr (.inr (State.potential_lt ?_))
    simp [Worker.weight, hpc, WorkerPc.weight]
  | take w t hpc hm hsd hg ht =>
    refine .inr (.inr (State.potential_lt ?_))
    simp [Worker.weight, hpc, WorkerPc.weight, hg]
  | workerSleep w hpc hm hsd hg =>
    refine .inr (.inr (State.potential_lt ?_))
    simp [Worker.weight, hpc, WorkerPc.weight]
  | invoke w t hpc =>
    refine .inr (.inr (State.potential_lt ?_))
    simp [Worker.weight, hpc, WorkerPc.weight]
  | finish w t hpc =>
    refine .inr (.inr (State.potential_lt ?_))
    simp [Worker.weight, hpc, WorkerPc.weight]
  | fetchSub w hpc =>
    have hlt : (s.setWorker w { s.workers w with
        pc := if s.activeCount = 1 then .toNotify else .entering }).potential < s.potential := by
      refine State.potential_lt ?_
      by_cases h1 : s.activeCount = 1 <;> simp [Worker.weight, hpc, WorkerPc.weight, h1]
    exact .inr (.inr hlt)
  | notifyOne w hpc hm =>
    -- The notification may wake the dispatcher.
    have hworker := s.potential_setPc w .entering
    rw [hpc] at hworker
    have hmove := (s.setWorker w { s.workers w with pc := .entering }).potential_dispatcher
      (if s.dispatcher = .asleep then .toWait else s.dispatcher)
    have hle : (if s.dispatcher = .asleep then .toWait else s.dispatcher : DispatcherPc).weight n ≤
        s.dispatcher.weight n + 3 := by
      split
      · next hasleep => rw [hasleep]; rfl
      · omega
    have hd : (s.setWorker w { s.workers w with pc := .entering }).dispatcher = s.dispatcher := rfl
    rw [hd] at hmove
    simp only [WorkerPc.weight] at hworker
    dsimp only at hmove ⊢
    exact .inr (.inr (by omega))

theorem works_potential (s s' : State Task n) (h : Works s s') : s'.potential < s.potential := by
  rcases step_potential h.step with hstarts | ⟨hwakes, -⟩ | hlt
  · exact absurd hstarts h.notStarts
  · exact absurd hwakes h.notWakes
  · exact hlt

theorem disturbs_potential (s s' : State Task n) (h : Disturbs s s') :
    s'.potential ≤ s.potential + 3 := by
  rcases step_potential h.step with hstarts | ⟨-, hle⟩ | hlt
  · exact absurd hstarts h.wakes.not_starts
  · exact hle
  · exact hlt.le.trans (Nat.le_add_right _ _)

theorem WorkerPc.weight_le {pc : WorkerPc Task} (h : pc.busy = false) : pc.weight ≤ 5 := by
  cases pc <;> simp_all [weight, busy]

/-- The potential when a call begins. -/
theorem starts_potential {s s' : State Task n} (h : Inv s) (hs : Step s s')
    (hstarts : Starts s s') : s'.potential ≤ 14 * n + 4 := by
  obtain ⟨hidle, hstarts⟩ := hstarts
  have hworkers : ∀ g, ∑ w, (s.workers w).weight g ≤ n * 13 := fun g => by
    have hsum := Finset.sum_le_card_nsmul Finset.univ (fun w => (s.workers w).weight g) 13
      fun w _ => by
        have hpc := WorkerPc.weight_le (h.all_done (h.quiet (.inl hidle)) w).2.1
        simp only [Worker.weight]
        split <;> omega
    simpa using hsum
  cases hs with
  | publish t hd =>
    have := hworkers (s.generation + 1)
    simp only [State.potential, DispatcherPc.weight]
    omega
  | stop hd =>
    have := hworkers s.generation
    simp only [State.potential, DispatcherPc.weight]
    omega
  | notifyAll hd => simp [hidle] at hd
  | lock hd => simp [hidle] at hd
  | loadZero hd => simp [hidle] at hd
  | loadBusy hd => simp [hidle] at hd
  | sleep hd => simp [hidle] at hd
  | spuriousDone hd => simp [hidle] at hd
  | stopNotifyAll hd => simp [hidle] at hd
  | notifyOne w hpc hm => simp [hidle] at hstarts
  | _ => exact absurd hidle hstarts

/-! ## Whom nobody wakes -/

/-- A worker that sleeps has seen the last call and no shutdown, unless the dispatcher is about to
wake it. -/
structure Settled (s : State Task n) : Prop where
  asleep : ∀ w, (s.workers w).pc = .asleep →
    ((s.workers w).myGeneration < s.generation → s.dispatcher = .toNotifyAll) ∧
      (s.shutdown = true → s.dispatcher = .stopping)
  exited : ∀ w, (s.workers w).pc = .exited → s.shutdown = true
  shutdown : s.shutdown = true ↔ s.dispatcher = .stopping ∨ s.dispatcher = .stopped

theorem settled_init : Settled (init : State Task n) := by
  refine ⟨fun w hpc => ?_, fun w hpc => ?_, by simp [init]⟩ <;> cases hpc

theorem Settled.setWorker {s : State Task n} (h : Settled s) {w : Fin n} {x : Worker Task}
    (hasleep : x.pc = .asleep → ¬ x.myGeneration < s.generation ∧ s.shutdown = false)
    (hexited : x.pc = .exited → s.shutdown = true) : Settled (s.setWorker w x) := by
  refine ⟨fun v hpc => ?_, fun v hpc => ?_, h.shutdown⟩
  · by_cases hv : v = w
    · subst hv
      rw [State.setWorker_same] at hpc ⊢
      obtain ⟨hle, hsd⟩ := hasleep hpc
      exact ⟨fun hlt => absurd hlt hle, fun hsd' => absurd (hsd.symm.trans hsd') (by simp)⟩
    · rw [State.setWorker_other s x hv] at hpc ⊢
      exact h.asleep v hpc
  · by_cases hv : v = w
    · subst hv
      rw [State.setWorker_same] at hpc
      exact hexited hpc
    · rw [State.setWorker_other s x hv] at hpc
      exact h.exited v hpc

theorem Settled.setDispatcher {s : State Task n} (h : Settled s) {d : DispatcherPc}
    (hold : s.dispatcher ≠ .toNotifyAll ∧ s.dispatcher ≠ .stopping ∧ s.dispatcher ≠ .stopped)
    (hnew : d ≠ .stopping ∧ d ≠ .stopped) : Settled { s with dispatcher := d } := by
  have hsd : s.shutdown ≠ true := fun hsd => by
    rcases h.shutdown.mp hsd with hd | hd
    · exact hold.2.1 hd
    · exact hold.2.2 hd
  refine ⟨fun w hpc => ⟨fun hlt => absurd ((h.asleep w hpc).1 hlt) hold.1,
    fun hsd' => absurd hsd' hsd⟩, h.exited, ?_⟩
  exact iff_of_false hsd (not_or.mpr hnew)

theorem Worker.wake_pc (x : Worker Task) :
    x.wake.pc ≠ .asleep ∧ (x.wake.pc = .exited → x.pc = .exited) := by
  unfold Worker.wake
  split
  · simp
  · next hpc => exact ⟨hpc, id⟩

theorem Settled.wakeAll {s : State Task n} (h : Settled s) {d : DispatcherPc}
    (hd : s.shutdown = true ↔ d = .stopping ∨ d = .stopped) :
    Settled { s with dispatcher := d, workers := fun w => (s.workers w).wake } :=
  ⟨fun w hpc => absurd hpc (s.workers w).wake_pc.1,
    fun w hpc => h.exited w ((s.workers w).wake_pc.2 hpc), hd⟩

theorem settled_step {s s' : State Task n} (h : Settled s) (hs : Step s s') : Settled s' := by
  cases hs with
  | publish t hd =>
    have hsd : s.shutdown ≠ true := fun hsd => by simpa [hd] using h.shutdown.mp hsd
    exact ⟨fun w hpc => ⟨fun _ => rfl, fun hsd' => absurd hsd' hsd⟩, h.exited,
      iff_of_false hsd (by simp)⟩
  | notifyAll hd =>
    refine h.wakeAll (iff_of_false (fun hsd => ?_) (by simp))
    simpa [hd] using h.shutdown.mp hsd
  | lock hd => exact h.setDispatcher (by simp [hd]) (by simp)
  | loadZero hd h0 => exact h.setDispatcher (by simp [hd]) (by simp)
  | loadBusy hd h0 => exact h.setDispatcher (by simp [hd]) (by simp)
  | sleep hd => exact h.setDispatcher (by simp [hd]) (by simp)
  | spuriousDone hd => exact h.setDispatcher (by simp [hd]) (by simp)
  | stop hd =>
    refine ⟨fun w hpc => ⟨fun hlt => ?_, fun _ => rfl⟩, fun _ _ => rfl,
      iff_of_true rfl (.inl rfl)⟩
    have hnotify := (h.asleep w hpc).1 hlt
    rw [hd] at hnotify
    cases hnotify
  | stopNotifyAll hd => exact h.wakeAll (iff_of_true (h.shutdown.mpr (.inl hd)) (.inr rfl))
  | exit w hpc hm hsd => exact h.setWorker (by simp) fun _ => hsd
  | take w t hpc hm hsd hg ht => exact h.setWorker (by simp) (by simp)
  | workerSleep w hpc hm hsd hg => exact h.setWorker (fun _ => ⟨hg, hsd⟩) (by simp)
  | spuriousStart w hpc => exact h.setWorker (by simp) (by simp)
  | invoke w t hpc => exact h.setWorker (by simp) (by simp)
  | finish w t hpc => exact h.setWorker (by simp) (by simp)
  | fetchSub w hpc =>
    have h' : Settled (s.setWorker w { s.workers w with
        pc := if s.activeCount = 1 then .toNotify else .entering }) := by
      refine h.setWorker ?_ ?_ <;> split <;> simp
    exact ⟨h'.asleep, h'.exited, h'.shutdown⟩
  | notifyOne w hpc hm =>
    have h' : Settled (s.setWorker w { s.workers w with pc := .entering }) :=
      h.setWorker (by simp) (by simp)
    by_cases hd : s.dispatcher = .asleep
    · rw [if_pos hd]
      exact h'.setDispatcher (show s.dispatcher ≠ _ ∧ s.dispatcher ≠ _ ∧ s.dispatcher ≠ _ by
        simp [hd]) (by simp)
    · rw [if_neg hd]
      exact h'

theorem settled_of_reachable {s : State Task n} (h : Reachable s) : Settled s := by
  induction h with
  | refl => exact settled_init
  | tail _ hs ih => exact settled_step ih hs

/-! ## Progress -/

theorem Works.of_dispatcher {s s' : State Task n} (hs : Step s s') (hidle : s.dispatcher ≠ .idle)
    (hasleep : s.dispatcher ≠ .asleep) (hne : s'.dispatcher ≠ s.dispatcher) : Works s s' :=
  ⟨hs, fun h => hidle h.1, fun h => h.elim (fun h => hasleep h.1) fun h => hne h.2⟩

theorem Works.of_worker {s s' : State Task n} (hs : Step s s') {w : Fin n} {x : Worker Task}
    (hw : s'.workers = Function.update s.workers w x) (hold : (s.workers w).pc ≠ .asleep)
    (hnew : x.pc ≠ (s.workers w).pc) (hidle : s.dispatcher = .idle → s'.dispatcher = .idle) :
    Works s s' := by
  refine ⟨hs, fun h => h.2 (hidle h.1), ?_⟩
  rintro (⟨-, -, hsame⟩ | ⟨⟨v, hpc, hpc'⟩, -⟩)
  · rw [hsame] at hw
    have hx := congrFun hw w
    rw [Function.update_self] at hx
    exact hnew (congrArg Worker.pc hx.symm)
  · rw [hw] at hpc'
    by_cases hv : v = w
    · exact hold (hv ▸ hpc)
    · rw [Function.update_of_ne hv, hpc] at hpc'
      cases hpc'

/-- A step of the threads that ends no task. -/
structure Begins (s s' : State Task n) : Prop where
  works : Works s s'
  ended : ∀ w, (s'.workers w).ended = (s.workers w).ended

theorem Begins.of_worker {s s' : State Task n} (hs : Step s s') {w : Fin n} {x : Worker Task}
    (hw : s'.workers = Function.update s.workers w x) (hold : (s.workers w).pc ≠ .asleep)
    (hnew : x.pc ≠ (s.workers w).pc) (hidle : s.dispatcher = .idle → s'.dispatcher = .idle)
    (hended : x.ended = (s.workers w).ended) : Begins s s' := by
  refine ⟨.of_worker hs hw hold hnew hidle, fun v => ?_⟩
  rw [hw]
  by_cases hv : v = w
  · rw [hv, Function.update_self, hended]
  · rw [Function.update_of_ne hv]

theorem Worker.wake_ended (x : Worker Task) : x.wake.ended = x.ended := by
  unfold Worker.wake
  split <;> rfl

theorem rests_dispatcher {s : State Task n} (h : Progress.Rests Begins s) :
    s.dispatcher = .idle ∨ s.dispatcher = .asleep ∨ s.dispatcher = .stopped := by
  have hbegins : ∀ {s'}, Step s s' → s.dispatcher ≠ .idle → s.dispatcher ≠ .asleep →
      s'.dispatcher ≠ s.dispatcher → (∀ w, (s'.workers w).ended = (s.workers w).ended) → False :=
    fun hstep hidle hasleep hne hended => h _ ⟨.of_dispatcher hstep hidle hasleep hne, hended⟩
  cases hd : s.dispatcher with
  | idle => exact .inl rfl
  | asleep => exact .inr (.inl rfl)
  | stopped => exact .inr (.inr rfl)
  | toNotifyAll =>
    exact (hbegins (.notifyAll hd) (by simp [hd]) (by simp [hd]) (by simp [hd])
      fun w => (s.workers w).wake_ended).elim
  | toWait =>
    exact (hbegins (.lock hd) (by simp [hd]) (by simp [hd]) (by simp [hd]) fun _ => rfl).elim
  | holding =>
    by_cases h0 : s.activeCount = 0
    · exact (hbegins (.loadZero hd h0) (by simp [hd]) (by simp [hd]) (by simp [hd])
        fun _ => rfl).elim
    · exact (hbegins (.loadBusy hd h0) (by simp [hd]) (by simp [hd]) (by simp [hd])
        fun _ => rfl).elim
  | committed =>
    exact (hbegins (.sleep hd) (by simp [hd]) (by simp [hd]) (by simp [hd]) fun _ => rfl).elim
  | stopping =>
    exact (hbegins (.stopNotifyAll hd) (by simp [hd]) (by simp [hd]) (by simp [hd])
      fun w => (s.workers w).wake_ended).elim

/-- A worker whose next step is not the end of its task. -/
theorem rests_worker {s : State Task n} (hi : Inv s) (h : Progress.Rests Begins s) (w : Fin n) :
    (s.workers w).pc = .asleep ∨ (s.workers w).pc = .exited ∨
      ∃ t, (s.workers w).pc = .running t := by
  have hfree : s.mutexFree := by
    rcases rests_dispatcher h with hd | hd | hd <;> simp [State.mutexFree, hd]
  cases hpc : (s.workers w).pc with
  | asleep => exact .inl rfl
  | exited => exact .inr (.inl rfl)
  | running t => exact .inr (.inr ⟨t, rfl⟩)
  | entering =>
    by_cases hsd : s.shutdown = true
    · exact absurd (.of_worker (.exit w hpc hfree hsd) rfl (by simp [hpc]) (by simp [hpc]) id rfl)
        (h _)
    · have hsd : s.shutdown = false := by simpa using hsd
      by_cases hg : s.generation > (s.workers w).myGeneration
      · obtain ⟨t, ht⟩ : ∃ t, s.task = some t := by
          rw [hi.task]
          cases hlast : s.history.getLast? with
          | some t => exact ⟨t, rfl⟩
          | none =>
            have hgen := hi.generation
            rw [List.getLast?_eq_none_iff.mp hlast, List.length_nil] at hgen
            omega
        exact absurd (.of_worker (.take w t hpc hfree hsd hg ht) rfl (by simp [hpc])
          (by simp [hpc]) id rfl) (h _)
      · exact absurd (.of_worker (.workerSleep w hpc hfree hsd hg) rfl (by simp [hpc])
          (by simp [hpc]) id rfl) (h _)
  | taken t =>
    exact absurd (.of_worker (.invoke w t hpc) rfl (by simp [hpc]) (by simp [hpc]) id rfl) (h _)
  | returned =>
    refine absurd (.of_worker (.fetchSub w hpc) rfl (by simp [hpc]) ?_ id rfl) (h _)
    rw [hpc]
    dsimp only
    split <;> simp
  | toNotify =>
    refine absurd (.of_worker (.notifyOne w hpc hfree) rfl (by simp [hpc]) (by simp [hpc])
      (fun hd => ?_) rfl) (h _)
    simp [hd]

/-- No worker is in its task in a pool at rest. -/
theorem not_running {s : State Task n} (h : Progress.Rests Works s) (w : Fin n) (t : Task) :
    (s.workers w).pc ≠ .running t := fun hpc =>
  h _ (.of_worker (.finish w t hpc) rfl (by simp [hpc]) (by simp [hpc]) id)

/-- A pool at rest waits for a call, or has been shut down. -/
theorem Settled.rests {s : State Task n} (hs : Settled s) (hi : Inv s)
    (h : Progress.Rests Works s) : s.dispatcher = .idle ∨
      (s.dispatcher = .stopped ∧ ∀ w, (s.workers w).pc = .exited) := by
  have hbegins : Progress.Rests Begins s := fun s' hs' => h s' hs'.works
  have hworker : ∀ w, (s.workers w).pc = .asleep ∨ (s.workers w).pc = .exited := fun w =>
    (rests_worker hi hbegins w).imp_right fun hpc =>
      hpc.resolve_right fun ⟨t, hpc⟩ => not_running h w t hpc
  rcases rests_dispatcher hbegins with hd | hd | hd
  · exact .inl hd
  · exfalso
    have hnotExited : ∀ w, (s.workers w).pc ≠ .exited := fun w hpc => by
      simpa [hd] using hs.shutdown.mp (hs.exited w hpc)
    by_cases h0 : s.activeCount = 0
    · -- The last worker still has to notify.
      obtain ⟨w, hpc⟩ := hi.notifier (.inr hd) h0
      rcases hworker w with hpc' | hpc' <;> simp [hpc] at hpc'
    · -- A worker that has not finished has seen no call, so it does not sleep.
      rw [hi.count] at h0
      obtain ⟨w, hw⟩ := Finset.card_pos.mp (Nat.pos_of_ne_zero h0)
      have hpc := (hworker w).resolve_right (hnotExited w)
      have hlag : (s.workers w).myGeneration < s.generation := by
        simpa [Worker.unfinished, hpc, WorkerPc.busy] using hw
      simpa [hd] using (hs.asleep w hpc).1 hlag
  · refine .inr ⟨hd, fun w => (hworker w).resolve_left fun hpc => ?_⟩
    simpa [hd] using (hs.asleep w hpc).2 (hs.shutdown.mpr (.inr hd))

/-- A call of `run_parallel`, or of the destructor, in a pool that was used in any way before: with
`k` spurious wakeups the threads take at most `14 * n + 4 + 3 * k` steps until the next call, in
whatever order. When they rest the call has returned, each worker has run the tasks of all calls
once and in order, and after the destructor's shutdown each can be joined. Left alone, they come to
rest. -/
theorem run_parallel_returns {s s₁ s' : State Task n} (hr : Reachable s) (hstep : Step s s₁)
    (hstarts : Starts s s₁) {m k : Nat} (hrun : Progress.Run Works Disturbs m k s₁ s') :
    m ≤ 14 * n + 4 + 3 * k ∧
    (∃ m' s'', Progress.Run Works Disturbs m' 0 s' s'' ∧ Progress.Rests Works s'') ∧
    (Progress.Rests Works s' →
      (∀ w, (s'.workers w).begun = s₁.history ∧ (s'.workers w).ended = s₁.history) ∧
      ((s₁.shutdown = false ∧ s'.dispatcher = .idle) ∨
        (s₁.shutdown = true ∧ s'.dispatcher = .stopped ∧
          ∀ w, (s'.workers w).pc = .exited))) := by
  have hbound := hrun.bound works_potential disturbs_potential
  have hstart := starts_potential (inv_of_reachable hr) hstep hstarts
  refine ⟨by omega, Progress.exists_rests works_potential _ _, fun hrests => ?_⟩
  obtain ⟨hr', hhistory, hshutdown⟩ := hrun.invariant
    (I := fun t => Reachable t ∧ t.history = s₁.history ∧ t.shutdown = s₁.shutdown)
    (fun t t' ⟨ht, hh, hsd⟩ hw => by
      obtain ⟨hh', hsd'⟩ := step_same hw.step hw.notStarts
      exact ⟨.tail ht hw.step, hh'.trans hh, hsd'.trans hsd⟩)
    (fun t t' ⟨ht, hh, hsd⟩ hw => by
      obtain ⟨hh', hsd'⟩ := step_same hw.step hw.wakes.not_starts
      exact ⟨.tail ht hw.step, hh'.trans hh, hsd'.trans hsd⟩)
    ⟨.tail hr hstep, rfl, rfl⟩
  have hi := inv_of_reachable hr'
  have hsettled := settled_of_reachable hr'
  have hend := hsettled.rests hi hrests
  have hdone : s'.activeCount = 0 := by
    rcases hend with hd | ⟨hd, -⟩
    · exact hi.quiet (.inl hd)
    · exact hi.quiet (.inr (.inr hd))
  refine ⟨fun w => hhistory ▸ (hi.all_done hdone w).2.2, ?_⟩
  rw [← hshutdown]
  rcases hend with hd | ⟨hd, hexited⟩
  · refine .inl ⟨?_, hd⟩
    have hsd : ¬ s'.shutdown = true := fun hsd => by simpa [hd] using hsettled.shutdown.mp hsd
    simpa using hsd
  · exact .inr ⟨hsettled.shutdown.mpr (.inr hd), hd, hexited⟩

/-- The pool of one worker after the call of its first task. -/
def sevenPublished : State Nat 1 where
  task := some 7
  activeCount := 1
  generation := 1
  dispatcher := .toNotifyAll
  history := [7]

theorem run_parallel_returns_seven : ∃ m s', m ≤ 18 ∧
    Progress.Run Works Disturbs m 0 sevenPublished s' ∧ s'.dispatcher = .idle ∧
      (s'.workers 0).ended = [7] := by
  have hstep : Step init sevenPublished := .publish 7 rfl
  have hstarts : Starts init sevenPublished := ⟨rfl, by simp [sevenPublished]⟩
  obtain ⟨-, ⟨m, s', hrun, hrests⟩, -⟩ := run_parallel_returns .refl hstep hstarts (.refl _)
  obtain ⟨hbound, -, hreturned⟩ := run_parallel_returns .refl hstep hstarts hrun
  obtain ⟨hlogs, hend⟩ := hreturned hrests
  rcases hend with ⟨-, hd⟩ | ⟨hsd, -⟩
  · exact ⟨m, s', hbound, hrun, hd, (hlogs 0).2⟩
  · cases hsd

end HashJoin.ThreadPool
