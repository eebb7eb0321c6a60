import HashJoin.Lib.Interleave

/-!
# Pools whose jobs are lists of actions

A pool hands the jobs of its calls to workers. A worker takes the actions of a job one by one,
between the steps that begin and end it, while the other workers and the pool go on. If the pool
lets no call begin before every worker has ended its jobs of the last one, the actions of a run
are, call by call, an interleaving of the programs of the workers.
-/

namespace HashJoin.Interleave

variable {α : Type}

/-! ## The actions of a worker in a trace -/

def actionsOf (t : Nat) (trace : List (Nat × α)) : List α :=
  (trace.filter fun x => x.1 = t).map Prod.snd

@[simp] theorem actionsOf_nil (t : Nat) : actionsOf t ([] : List (Nat × α)) = [] := rfl

@[simp] theorem actionsOf_append (t : Nat) (xs ys : List (Nat × α)) :
    actionsOf t (xs ++ ys) = actionsOf t xs ++ actionsOf t ys := by
  simp [actionsOf]

@[simp] theorem actionsOf_cons_self (t : Nat) (a : α) (xs : List (Nat × α)) :
    actionsOf t ((t, a) :: xs) = a :: actionsOf t xs := by
  simp [actionsOf]

theorem actionsOf_cons_ne {t u : Nat} (h : u ≠ t) (a : α) (xs : List (Nat × α)) :
    actionsOf t ((u, a) :: xs) = actionsOf t xs := by
  simp [actionsOf, h]

theorem actionsOf_complete {n : Nat} (progs : Nat → List α) (sched : List Nat) {t : Nat}
    (ht : t < n) : actionsOf t (complete n progs sched) = progs t := by
  unfold actionsOf
  rw [filter_complete progs sched ht, List.map_map]
  exact List.map_id _

/-- The turns of a trace schedule it, and the actions that are left follow. -/
theorem interleave_fst_append {progs left : Nat → List α} {trace : List (Nat × α)}
    (h : ∀ t, actionsOf t trace ++ left t = progs t) (sched : List Nat) :
    interleave progs (trace.map Prod.fst ++ sched) = trace ++ interleave left sched := by
  induction trace generalizing progs with
  | nil =>
    have heq : left = progs := funext h
    rw [heq]
    rfl
  | cons x trace ih =>
    obtain ⟨t, a⟩ := x
    have hself : progs t = a :: (actionsOf t trace ++ left t) := by
      rw [← h t, actionsOf_cons_self, List.cons_append]
    rw [List.map_cons, List.cons_append, interleave, hself]
    refine congrArg ((t, a) :: ·) (ih fun u => ?_)
    by_cases hu : u = t
    · subst hu
      rw [Function.update_self]
    · rw [Function.update_of_ne hu, ← h u, actionsOf_cons_ne (Ne.symm hu)]

theorem interleave_nil {progs : Nat → List α} {sched : List Nat} (h : ∀ t ∈ sched, progs t = []) :
    interleave progs sched = [] := by
  induction sched with
  | nil => rfl
  | cons t sched ih =>
    rw [interleave, h t List.mem_cons_self]
    exact ih fun u hu => h u (List.mem_cons_of_mem t hu)

theorem interleave_congr {progs progs' : Nat → List α} {sched : List Nat}
    (h : ∀ t ∈ sched, progs t = progs' t) : interleave progs sched = interleave progs' sched := by
  induction sched generalizing progs progs' with
  | nil => rfl
  | cons t sched ih =>
    have htail : ∀ u ∈ sched, progs u = progs' u := fun u hu => h u (List.mem_cons_of_mem t hu)
    rw [interleave, interleave, h t List.mem_cons_self]
    cases progs' t with
    | nil => exact ih htail
    | cons a rest =>
      refine congrArg ((t, a) :: ·) (ih fun u hu => ?_)
      by_cases hut : u = t
      · rw [hut, Function.update_self, Function.update_self]
      · rw [Function.update_of_ne hut, Function.update_of_ne hut]
        exact htail u hu

theorem lt_of_mem_finish {n t : Nat} {progs : Nat → List α} {sched : List Nat}
    (ht : t ∈ finish n progs sched) : t < n := by
  rcases List.mem_append.mp ht with ht | ht
  · exact of_decide_eq_true (List.mem_filter.mp ht).2
  · obtain ⟨u, hu, ht⟩ := List.mem_flatMap.mp ht
    rw [List.eq_of_mem_replicate ht]
    exact List.mem_range.mp hu

theorem complete_congr {n : Nat} {progs progs' : Nat → List α} (h : ∀ t < n, progs t = progs' t)
    (sched : List Nat) : complete n progs sched = complete n progs' sched := by
  have hfinish : finish n progs sched = finish n progs' sched := by
    unfold finish
    refine congrArg (sched.filter (· < n) ++ ·) (List.flatMap_congr fun t ht => ?_)
    rw [h t (List.mem_range.mp ht)]
  unfold complete
  rw [← hfinish]
  exact interleave_congr fun t ht => h t (lt_of_mem_finish ht)

/-- A trace in which each of the first `n` workers takes the actions of its program, and no other
worker any, is an interleaving of the programs. -/
theorem eq_complete {n : Nat} {progs : Nat → List α} {trace : List (Nat × α)}
    (hlt : ∀ x ∈ trace, x.1 < n) (h : ∀ t < n, actionsOf t trace = progs t) :
    trace = complete n progs (trace.map Prod.fst) := by
  have hturns : (trace.map Prod.fst).filter (· < n) = trace.map Prod.fst := by
    rw [List.filter_eq_self]
    intro t ht
    obtain ⟨x, hx, rfl⟩ := List.mem_map.mp ht
    exact decide_eq_true (hlt x hx)
  -- Beyond the first `n` the programs do not matter, so that these may take what is left.
  have hleft : ∀ t, actionsOf t trace ++ (if t < n then [] else progs t) = progs t := by
    intro t
    by_cases ht : t < n
    · rw [if_pos ht, List.append_nil, h t ht]
    · have hnone : trace.filter (fun x => x.1 = t) = [] := by
        rw [List.filter_eq_nil_iff]
        intro x hx hxt
        exact ht (of_decide_eq_true hxt ▸ hlt x hx)
      rw [if_neg ht, actionsOf, hnone]
      rfl
  unfold complete finish
  rw [hturns, interleave_fst_append hleft, interleave_nil, List.append_nil]
  intro t ht
  obtain ⟨u, hu, ht⟩ := List.mem_flatMap.mp ht
  rw [List.eq_of_mem_replicate ht]
  exact if_pos (List.mem_range.mp hu)

end HashJoin.Interleave

namespace HashJoin.PoolTrace

open Interleave

/-- What a pool of `n` workers shows. -/
structure Pool (σ Call Job : Type) (n : Nat) where
  Step : σ → σ → Prop
  /-- The calls so far. -/
  history : σ → List Call
  begun : σ → Fin n → List Job
  ended : σ → Fin n → List Job
  /-- No call is in progress. -/
  Idle : σ → Prop
  /-- The jobs of a worker for a call. -/
  jobs : Nat → Call → List Job

/-! ## The logs of a step -/

section

variable {W Job : Type} (begun ended : W → List Job)

/-- A worker after a step that does not both begin and end jobs of it. -/
def Logged (x x' : W) : Prop :=
  begun x <+: begun x' ∧ (begun x' = begun x ∨ ended x' = ended x)

variable {begun ended} {n : Nat} {workers workers' : Fin n → W} {t : Fin n} {x x' : W}

theorem Logged.same (h : begun x' = begun x) : Logged begun ended x x' :=
  ⟨h ▸ List.prefix_rfl, .inl h⟩

theorem Logged.update (hw : workers' = Function.update workers t x)
    (hx : Logged begun ended (workers t) x) (u : Fin n) :
    Logged begun ended (workers u) (workers' u) := by
  rw [hw]
  by_cases hu : u = t
  · subst hu
    rw [Function.update_self]
    exact hx
  · rw [Function.update_of_ne hu]
    exact .same rfl

theorem Logged.updateSame (hw : workers' = Function.update workers t x)
    (h : begun x = begun (workers t)) (u : Fin n) :
    Logged begun ended (workers u) (workers' u) :=
  .update hw (.same h) u

end

/-! ## Runs -/

variable {σ Call Job α : Type} {n : Nat}

/-- A run from `s₀` with the actions that the workers have left and those taken so far. A worker
that begins jobs has their actions to take, and ends a job when it has none left. -/
inductive Pool.Run (P : Pool σ Call Job n) (prog : Nat → Job → List α) (s₀ : σ) :
    σ → (Fin n → List α) → List (Nat × α) → Prop where
  | start : Run P prog s₀ s₀ (fun _ => []) []
  | step {s s' : σ} {left : Fin n → List α} {trace : List (Nat × α)} :
      Run P prog s₀ s left trace → P.Step s s' →
      (∀ t, P.ended s' t ≠ P.ended s t → left t = []) →
      Run P prog s₀ s' (fun t => left t ++
        ((P.begun s' t).drop (P.begun s t).length).flatMap (prog t)) trace
  | act {s : σ} {left : Fin n → List α} {trace : List (Nat × α)} (t : Fin n) (a : α)
      (rest : List α) : Run P prog s₀ s left trace → left t = a :: rest →
      Run P prog s₀ s (Function.update left t rest) (trace ++ [(t.val, a)])

/-- The program of each worker for a call. -/
def Pool.programs (P : Pool σ Call Job n) (prog : Nat → Job → List α) (c : Call) (t : Nat) :
    List α :=
  (P.jobs t c).flatMap (prog t)

/-- The workers take the calls one after another, each in the order of its schedule. -/
def Pool.sequential (P : Pool σ Call Job n) (prog : Nat → Job → List α)
    (calls : List (Call × List Nat)) : List (Nat × α) :=
  calls.flatMap fun x => complete n (P.programs prog x.1) x.2

/-- What the pool keeps in the states `Ok`, which include those that it reaches from `s₀`. -/
structure Pool.Dispatches (P : Pool σ Call Job n) (Ok : σ → Prop) (s₀ : σ) : Prop where
  start : Ok s₀
  history_start : P.history s₀ = []
  begun_start : ∀ t, P.begun s₀ t = []
  ok : ∀ {s s'}, Ok s → P.Step s s' → Ok s'
  begun : ∀ {s s'}, Ok s → P.Step s s' → ∀ t, P.begun s t <+: P.begun s' t
  /-- No step both begins and ends jobs of a worker. -/
  single : ∀ {s s'}, Ok s → P.Step s s' → ∀ t,
    P.begun s' t = P.begun s t ∨ P.ended s' t = P.ended s t
  ended : ∀ {s}, Ok s → ∀ t, (P.ended s t).length ≤ (P.begun s t).length
  calls : ∀ {s s'}, Ok s → P.Step s s' →
    P.history s' = P.history s ∨ P.Idle s ∧ ∃ c, P.history s' = P.history s ++ [c]
  idle : ∀ {s}, Ok s → P.Idle s → ∀ t,
    P.begun s t = (P.history s).flatMap (P.jobs t) ∧ P.ended s t = P.begun s t

section

variable {P : Pool σ Call Job n} {prog : Nat → Job → List α} {s₀ s s' : σ}
  {left : Fin n → List α} {trace : List (Nat × α)}

theorem Pool.Run.fst_lt (hrun : P.Run prog s₀ s left trace) : ∀ x ∈ trace, x.1 < n := by
  induction hrun with
  | start => simp
  | step _ _ _ ih => exact ih
  | act t a rest _ _ ih =>
    intro x hx
    rcases List.mem_append.mp hx with hx | hx
    · exact ih x hx
    · rw [List.mem_singleton.mp hx]
      exact t.2

theorem Pool.actionsOf_sequential {calls : List (Call × List Nat)} {t : Nat} (ht : t < n) :
    actionsOf t (P.sequential prog calls) =
      (calls.map Prod.fst).flatMap fun c => P.programs prog c t := by
  induction calls with
  | nil => rfl
  | cons x calls ih =>
    unfold Pool.sequential at ih ⊢
    rw [List.flatMap_cons, actionsOf_append, actionsOf_complete _ _ ht, ih, List.map_cons,
      List.flatMap_cons]

/-! ### What a run does -/

variable {Ok : σ → Prop} (h : P.Dispatches Ok s₀)
include h

theorem Pool.Dispatches.ok_run (hrun : P.Run prog s₀ s left trace) : Ok s := by
  induction hrun with
  | start => exact h.start
  | step _ hstep _ ih => exact h.ok ih hstep
  | act t a rest _ _ ih => exact ih

/-- A worker has taken the actions of the jobs that it has begun, but for those that are left. -/
theorem Pool.Dispatches.actionsOf (hrun : P.Run prog s₀ s left trace) (t : Fin n) :
    actionsOf t trace ++ left t = (P.begun s t).flatMap (prog t) := by
  induction hrun with
  | start => simp [h.begun_start t]
  | @step s s' left trace hrun hstep hended ih =>
    obtain ⟨new, hnew⟩ := h.begun (h.ok_run hrun) hstep t
    rw [← List.append_assoc, ih, ← hnew, List.drop_left, List.flatMap_append]
  | @act s left trace u a rest hrun hleft ih =>
    rw [actionsOf_append, List.append_assoc]
    by_cases hu : t = u
    · subst hu
      rw [Function.update_self, actionsOf_cons_self, actionsOf_nil, List.singleton_append, ← hleft,
        ih]
    · have hne : (u : Nat) ≠ t := fun he => hu (Fin.ext he.symm)
      rw [Function.update_of_ne hu, actionsOf_cons_ne hne, actionsOf_nil, List.nil_append, ih]

theorem Pool.Dispatches.left_nil (hrun : P.Run prog s₀ s left trace) (t : Fin n)
    (hdone : P.ended s t = P.begun s t) : left t = [] := by
  induction hrun with
  | start => rfl
  | @step s s' left trace hrun hstep hended ih =>
    have hok := h.ok_run hrun
    obtain ⟨new, hnew⟩ := h.begun hok hstep t
    have hle := h.ended hok t
    rcases h.single hok hstep t with hb | he
    · -- The worker has begun no job, so it has ended its last one or was done before.
      have hleft : left t = [] := by
        by_cases he : P.ended s' t = P.ended s t
        · exact ih (by rw [← he, hdone, hb])
        · exact hended t he
      dsimp only
      rw [hleft, hb, List.drop_length]
      rfl
    · -- It has ended no job, so it can have begun none.
      have hlen := congrArg List.length hnew
      rw [List.length_append, ← hdone, he] at hlen
      have hnil : new = [] := List.length_eq_zero_iff.mp (by omega)
      rw [hnil, List.append_nil] at hnew
      dsimp only
      rw [← hnew, List.drop_length, ih (by rw [← he, hdone, hnew])]
      rfl
  | @act s left trace u a rest hrun hleft ih =>
    have hnil := ih hdone
    by_cases hu : t = u
    · subst hu
      rw [hleft] at hnil
      cases hnil
    · rw [Function.update_of_ne hu]
      exact hnil

theorem Pool.Dispatches.actionsOf_idle (hrun : P.Run prog s₀ s left trace) (hidle : P.Idle s)
    (t : Fin n) : left t = [] ∧
      Interleave.actionsOf t trace = (P.history s).flatMap fun c => P.programs prog c t := by
  obtain ⟨hbegun, hended⟩ := h.idle (h.ok_run hrun) hidle t
  have hleft := h.left_nil hrun t hended
  have htaken := h.actionsOf hrun t
  rw [hleft, List.append_nil, hbegun, List.flatMap_assoc] at htaken
  exact ⟨hleft, htaken⟩

/-- When the calls before the last one have been taken one after another, then in an idle state all
have. -/
theorem Pool.Dispatches.last_call (hrun : P.Run prog s₀ s left trace) (hidle : P.Idle s)
    {calls : List (Call × List Nat)} {current : List (Nat × α)}
    (hcalls : calls.map Prod.fst = (P.history s).dropLast)
    (htrace : trace = P.sequential prog calls ++ current) :
    ∃ calls, calls.map Prod.fst = P.history s ∧ trace = P.sequential prog calls := by
  have hlt : ∀ x ∈ current, x.1 < n := fun x hx =>
    hrun.fst_lt x (htrace ▸ List.mem_append_right _ hx)
  have htaken : ∀ t < n, Interleave.actionsOf t current =
      ((P.history s).drop (P.history s).dropLast.length).flatMap
        fun c => P.programs prog c t := by
    intro t ht
    have hall := (h.actionsOf_idle hrun hidle ⟨t, ht⟩).2
    rw [htrace, actionsOf_append, Pool.actionsOf_sequential ht, hcalls] at hall
    conv_rhs at hall =>
      rw [← List.take_append_drop (P.history s).dropLast.length (P.history s),
        List.flatMap_append, ← List.prefix_iff_eq_take.mp (List.dropLast_prefix _)]
    exact List.append_cancel_left hall
  rcases List.eq_nil_or_concat (P.history s) with hnil | ⟨prev, c, hhistory⟩
  · have hcurrent : current = [] := by
      have heq := eq_complete hlt htaken
      rw [hnil] at heq
      rw [heq]
      exact interleave_nil fun _ _ => rfl
    exact ⟨calls, by simp [hcalls, hnil], by rw [htrace, hcurrent, List.append_nil]⟩
  · have hlast : ∀ t < n, Interleave.actionsOf t current = P.programs prog c t := by
      intro t ht
      rw [htaken t ht, hhistory, List.concat_eq_append, List.dropLast_concat, List.drop_left,
        List.flatMap_singleton]
    rw [hhistory, List.concat_eq_append, List.dropLast_concat] at hcalls
    refine ⟨calls ++ [(c, current.map Prod.fst)], by simp [hcalls, hhistory], ?_⟩
    rw [htrace, Pool.sequential, Pool.sequential, List.flatMap_append, List.flatMap_singleton,
      ← eq_complete hlt hlast]

theorem Pool.Dispatches.exists_calls (hrun : P.Run prog s₀ s left trace) :
    ∃ calls current, calls.map Prod.fst = (P.history s).dropLast ∧
      trace = P.sequential prog calls ++ current := by
  induction hrun with
  | start => exact ⟨[], [], by simp [h.history_start], rfl⟩
  | @act s left trace t a rest hrun hleft ih =>
    obtain ⟨calls, current, hcalls, htrace⟩ := ih
    exact ⟨calls, current ++ [(t.val, a)], hcalls, by rw [htrace, List.append_assoc]⟩
  | @step s s' left trace hrun hstep hended ih =>
    obtain ⟨calls, current, hcalls, htrace⟩ := ih
    rcases h.calls (h.ok_run hrun) hstep with hsame | ⟨hidle, c, hnew⟩
    · exact ⟨calls, current, by rw [hsame, hcalls], htrace⟩
    · obtain ⟨calls, hcalls, htrace⟩ := h.last_call hrun hidle hcalls htrace
      exact ⟨calls, [], by rw [hnew, List.dropLast_concat, hcalls], by rw [htrace, List.append_nil]⟩

/-- The actions of a run that comes to an idle state are those of its calls one after another, each
in the order of some schedule. -/
theorem Pool.Dispatches.sequential (hrun : P.Run prog s₀ s left trace) (hidle : P.Idle s) :
    (∀ t, left t = []) ∧
      ∃ calls, calls.map Prod.fst = P.history s ∧ trace = P.sequential prog calls := by
  obtain ⟨calls, current, hcalls, htrace⟩ := h.exists_calls hrun
  exact ⟨fun t => (h.actionsOf_idle hrun hidle t).1, h.last_call hrun hidle hcalls htrace⟩

/-! ### Every schedule is the order of some run -/

omit h

/-- Steps that end no job go on in a run. -/
theorem Pool.Run.begins (hrun : P.Run prog s₀ s left trace)
    (hsteps : Relation.ReflTransGen (fun a b => P.Step a b ∧ P.ended b = P.ended a) s s') :
    ∃ left', P.Run prog s₀ s' left' trace := by
  induction hsteps with
  | refl => exact ⟨left, hrun⟩
  | tail _ hstep ih =>
    obtain ⟨left', hrun'⟩ := ih
    exact ⟨_, hrun'.step hstep.1 fun t hne => absurd (congrFun hstep.2 t) hne⟩

/-- So do steps that begin no job, when the workers have no action left. -/
theorem Pool.Run.ends (hrun : P.Run prog s₀ s (fun _ => []) trace)
    (hsteps : Relation.ReflTransGen (fun a b => P.Step a b ∧ P.begun b = P.begun a) s s') :
    P.Run prog s₀ s' (fun _ => []) trace := by
  induction hsteps with
  | refl => exact hrun
  | tail _ hstep ih =>
    have hnext := ih.step hstep.1 fun _ _ => rfl
    simpa [hstep.2] using hnext

/-- The workers take their actions by turns. -/
theorem Pool.Run.acts {progs : Nat → List α} (sched : List Nat) (hlt : ∀ t ∈ sched, t < n)
    (hprogs : ∀ t : Fin n, left t = progs t) (hrun : P.Run prog s₀ s left trace) :
    P.Run prog s₀ s (fun t => (progs t).drop (sched.count t.val))
      (trace ++ interleave progs sched) := by
  induction sched generalizing progs left trace with
  | nil =>
    have hleft : (fun t : Fin n => (progs t).drop (List.count t.val [])) = left := by
      funext t
      simp [hprogs t]
    rw [hleft, interleave, List.append_nil]
    exact hrun
  | cons u sched ih =>
    have htail : ∀ t ∈ sched, t < n := fun t ht => hlt t (List.mem_cons_of_mem u ht)
    have hu : u < n := hlt u List.mem_cons_self
    rw [interleave]
    cases hp : progs u with
    | nil =>
      have hdrop : (fun t : Fin n => (progs t).drop ((u :: sched).count t.val)) =
          fun t : Fin n => (progs t).drop (sched.count t.val) := by
        funext t
        by_cases ht : u = t
        · rw [← ht, hp, List.drop_nil, List.drop_nil]
        · rw [List.count_cons_of_ne ht]
      rw [hdrop]
      exact ih htail hprogs hrun
    | cons a rest =>
      have hact := hrun.act ⟨u, hu⟩ a rest ((hprogs ⟨u, hu⟩).trans hp)
      have hrest : ∀ t : Fin n,
          Function.update left ⟨u, hu⟩ rest t = Function.update progs u rest t := by
        intro t
        by_cases ht : t = ⟨u, hu⟩
        · subst ht
          simp
        · have hne : (t : Nat) ≠ u := fun he => ht (Fin.ext he)
          rw [Function.update_of_ne ht, Function.update_of_ne hne]
          exact hprogs t
      have hnext := ih htail hrest hact
      have hdrop : (fun t : Fin n => (progs t).drop ((u :: sched).count t.val)) =
          fun t : Fin n => (Function.update progs u rest t).drop (sched.count t.val) := by
        funext t
        by_cases ht : u = t
        · subst ht
          simp [hp]
        · rw [List.count_cons_of_ne ht, Function.update_of_ne (Ne.symm ht)]
      rw [hdrop]
      simpa using hnext

/-- Called when idle, the pool can have every worker begin its jobs before any ends one, and come
back. -/
def Pool.Serves (P : Pool σ Call Job n) (Ok : σ → Prop) : Prop :=
  ∀ s, Ok s → P.Idle s → ∀ c, ∃ s₁ s₂,
    Relation.ReflTransGen (fun a b => P.Step a b ∧ P.ended b = P.ended a) s s₁ ∧
    (∀ t, P.begun s₁ t = P.begun s t ++ P.jobs t c) ∧
    Relation.ReflTransGen (fun a b => P.Step a b ∧ P.begun b = P.begun a) s₁ s₂ ∧
    P.Idle s₂ ∧ P.history s₂ = P.history s ++ [c]

include h

theorem Pool.Dispatches.exists_run (hserves : P.Serves Ok) (hidle : P.Idle s₀)
    (prog : Nat → Job → List α) (calls : List (Call × List Nat)) :
    ∃ s, P.Run prog s₀ s (fun _ => []) (P.sequential prog calls) ∧ P.Idle s ∧
      P.history s = calls.map Prod.fst := by
  induction calls using List.reverseRecOn with
  | nil => exact ⟨s₀, .start, hidle, h.history_start⟩
  | append_singleton calls x ih =>
    obtain ⟨c, sched⟩ := x
    obtain ⟨s, hrun, hidle, hhistory⟩ := ih
    obtain ⟨s₁, s₂, hbegins, hbegun, hends, hidle₂, hhistory₂⟩ :=
      hserves s (h.ok_run hrun) hidle c
    obtain ⟨left, hrun₁⟩ := hrun.begins hbegins
    have hleft : ∀ t : Fin n, left t = P.programs prog c t := by
      intro t
      have hbefore := h.actionsOf hrun t
      have hafter := h.actionsOf hrun₁ t
      rw [List.append_nil] at hbefore
      rw [hbegun t, List.flatMap_append, hbefore] at hafter
      exact List.append_cancel_left hafter
    have hacts := hrun₁.acts (finish n (P.programs prog c) sched) (fun _ => lt_of_mem_finish) hleft
    have hnone : (fun t : Fin n => (P.programs prog c t).drop
        ((finish n (P.programs prog c) sched).count t.val)) = fun _ => [] :=
      funext fun t => List.drop_eq_nil_of_le (length_le_count_finish _ _ t.2)
    rw [hnone] at hacts
    refine ⟨s₂, ?_, hidle₂, by rw [hhistory₂, hhistory, List.map_append, List.map_singleton]⟩
    rw [Pool.sequential, List.flatMap_append, List.flatMap_singleton]
    exact hacts.ends hends

/-- The orders in which the actions of a run can come are those of some schedule for each call. -/
theorem Pool.Dispatches.run_iff (hserves : P.Serves Ok) (hidle : P.Idle s₀) {history : List Call} :
    (∃ s left, P.Run prog s₀ s left trace ∧ P.Idle s ∧ P.history s = history) ↔
      ∃ calls, calls.map Prod.fst = history ∧ trace = P.sequential prog calls := by
  constructor
  · rintro ⟨s, left, hrun, hidle, rfl⟩
    exact (h.sequential hrun hidle).2
  · rintro ⟨calls, rfl, rfl⟩
    obtain ⟨s, hrun, hidle, hhistory⟩ := h.exists_run hserves hidle prog calls
    exact ⟨s, _, hrun, hidle, hhistory⟩

end

end HashJoin.PoolTrace
