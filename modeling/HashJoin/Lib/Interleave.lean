import Mathlib.Tactic

/-!
# Interleavings

Workers each with a list of actions, run in any order that keeps the order of each. A schedule
names the workers turn by turn. Two rules for what a run leaves: an invariant kept by every action,
and locality, when the actions of an agent depend on its own part of the state only and leave the
parts of the others alone.
-/

namespace HashJoin.Interleave

variable {α ι σ : Type}

/-- The actions in the order of the schedule, each with its worker. A worker without an action left
passes. -/
def interleave (progs : Nat → List α) : List Nat → List (Nat × α)
  | [] => []
  | t :: sched =>
    match progs t with
    | [] => interleave progs sched
    | a :: rest => (t, a) :: interleave (Function.update progs t rest) sched

/-- The turns of the first `n` workers in the schedule, after which those that have actions left
finish one after another. -/
def finish (n : Nat) (progs : Nat → List α) (sched : List Nat) : List Nat :=
  sched.filter (· < n) ++ (List.range n).flatMap fun t => List.replicate (progs t).length t

/-- The interleaving of all the actions of the first `n` workers. -/
def complete (n : Nat) (progs : Nat → List α) (sched : List Nat) : List (Nat × α) :=
  interleave progs (finish n progs sched)

/-! ## The actions of one worker -/

/-- Each worker takes its actions in order, one a turn. -/
theorem filter_interleave (progs : Nat → List α) (sched : List Nat) (t : Nat) :
    (interleave progs sched).filter (fun x => x.1 = t) =
      ((progs t).take (sched.count t)).map (Prod.mk t) := by
  induction sched generalizing progs with
  | nil => simp [interleave]
  | cons u sched ih =>
    unfold interleave
    by_cases hu : u = t
    · subst hu
      cases hp : progs u with
      | nil => simp only [ih, hp, List.take_nil, List.map_nil]
      | cons a rest => simp [ih]
    · cases hp : progs u with
      | nil => simp [ih, List.count_cons_of_ne hu]
      | cons a rest =>
        have hne : Function.update progs u rest t = progs t :=
          Function.update_of_ne (Ne.symm hu) rest progs
        simp [ih, List.count_cons_of_ne hu, hne, hu]

theorem length_le_count_finish {n : Nat} (progs : Nat → List α) (sched : List Nat) {t : Nat}
    (ht : t < n) : (progs t).length ≤ (finish n progs sched).count t := by
  have hmem : t ∈ List.range n := List.mem_range.mpr ht
  obtain ⟨l₁, l₂, hsplit⟩ := List.append_of_mem hmem
  unfold finish
  rw [List.count_append, hsplit, List.flatMap_append, List.count_append, List.flatMap_cons,
    List.count_append, List.count_replicate_self]
  omega

theorem filter_complete {n : Nat} (progs : Nat → List α) (sched : List Nat) {t : Nat}
    (ht : t < n) :
    (complete n progs sched).filter (fun x => x.1 = t) = (progs t).map (Prod.mk t) := by
  unfold complete
  rw [filter_interleave, List.take_of_length_le (length_le_count_finish progs sched ht)]

theorem fst_mem_of_mem_interleave {progs : Nat → List α} {sched : List Nat} {x : Nat × α}
    (hx : x ∈ interleave progs sched) : x.1 ∈ sched := by
  induction sched generalizing progs with
  | nil => simp [interleave] at hx
  | cons t sched ih =>
    rw [interleave] at hx
    cases hp : progs t with
    | nil =>
      rw [hp] at hx
      exact List.mem_cons_of_mem _ (ih hx)
    | cons a rest =>
      rw [hp] at hx
      rcases List.mem_cons.mp hx with rfl | hx
      · exact List.mem_cons_self
      · exact List.mem_cons_of_mem _ (ih hx)

/-- Only actions of the first `n` workers occur. -/
theorem mem_complete {n : Nat} {progs : Nat → List α} {sched : List Nat} {x : Nat × α}
    (hx : x ∈ complete n progs sched) : x.1 < n ∧ x.2 ∈ progs x.1 := by
  have hlt : x.1 < n := by
    rcases List.mem_append.mp (fst_mem_of_mem_interleave hx) with h | h
    · simpa using (List.mem_filter.mp h).2
    · obtain ⟨t, ht, h⟩ := List.mem_flatMap.mp h
      rw [List.eq_of_mem_replicate h]
      exact List.mem_range.mp ht
  have hf : x ∈ (complete n progs sched).filter (fun y => y.1 = x.1) :=
    List.mem_filter.mpr ⟨hx, by simp⟩
  rw [filter_complete _ _ hlt] at hf
  obtain ⟨a, ha, heq⟩ := List.mem_map.mp hf
  have hsnd : a = x.2 := congrArg Prod.snd heq
  exact ⟨hlt, hsnd ▸ ha⟩

/-- The actions of an agent that belongs to one worker. -/
theorem filter_agent [DecidableEq ι] {n : Nat} {progs : Nat → List α} (sched : List Nat)
    (agent : α → ι) {i : ι} {t : Nat} (ht : t < n)
    (howner : ∀ u < n, ∀ a ∈ progs u, agent a = i → u = t) :
    (complete n progs sched).filter (fun x => agent x.2 = i) =
      ((progs t).filter fun a => agent a = i).map (Prod.mk t) := by
  have hboth : (complete n progs sched).filter (fun x => agent x.2 = i) =
      ((complete n progs sched).filter fun x => x.1 = t).filter fun x => agent x.2 = i := by
    rw [List.filter_filter]
    apply List.filter_congr
    intro x hx
    obtain ⟨hlt, hmem⟩ := mem_complete hx
    by_cases ha : agent x.2 = i
    · simp [ha, howner x.1 hlt x.2 hmem ha]
    · simp [ha]
  rw [hboth, filter_complete _ _ ht, List.filter_map]
  rfl

/-! ## Invariants -/

/-- What each action keeps, given the actions that the workers have left, holds after a run. -/
theorem interleave_induction {exec : σ → Nat × α → σ} {I : (Nat → List α) → σ → Prop}
    (step : ∀ progs s t a rest, I progs s → progs t = a :: rest →
      I (Function.update progs t rest) (exec s (t, a)))
    (sched : List Nat) {progs : Nat → List α} {s : σ} (h : I progs s) :
    I (fun t => (progs t).drop (sched.count t)) ((interleave progs sched).foldl exec s) := by
  induction sched generalizing progs s with
  | nil => simpa [interleave] using h
  | cons t sched ih =>
    unfold interleave
    cases hp : progs t with
    | nil =>
      have hdrop : (fun u => (progs u).drop ((t :: sched).count u)) =
          fun u => (progs u).drop (sched.count u) := by
        funext u
        by_cases hu : t = u
        · rw [← hu, hp, List.drop_nil, List.drop_nil]
        · rw [List.count_cons_of_ne hu]
      rw [hdrop]
      exact ih h
    | cons a rest =>
      have hdrop : (fun u => (progs u).drop ((t :: sched).count u)) =
          fun u => (Function.update progs t rest u).drop (sched.count u) := by
        funext u
        by_cases hu : t = u
        · subst hu
          simp [hp]
        · rw [List.count_cons_of_ne hu, Function.update_of_ne (Ne.symm hu)]
      rw [hdrop, List.foldl_cons]
      exact ih (step progs s t a rest h hp)

/-! ## Locality -/

/-- The run of actions each of which is safe where it is taken. -/
def SafeRun (exec : σ → α → σ) (Safe : α → σ → Prop) : σ → List α → Prop
  | _, [] => True
  | s, a :: as => Safe a s ∧ SafeRun exec Safe (exec s a) as

theorem safeRun_append {exec : σ → α → σ} {Safe : α → σ → Prop} {s : σ} {as bs : List α} :
    SafeRun exec Safe s (as ++ bs) ↔
      SafeRun exec Safe s as ∧ SafeRun exec Safe (as.foldl exec s) bs := by
  induction as generalizing s with
  | nil => simp [SafeRun]
  | cons a as ih => simp [SafeRun, ih, and_assoc]

theorem safeRun_map {β : Type} {exec : σ → α → σ} {Safe : α → σ → Prop} (f : β → α) {s : σ}
    {bs : List β} : SafeRun exec Safe s (bs.map f) ↔
      SafeRun (fun s b => exec s (f b)) (fun b => Safe (f b)) s bs := by
  induction bs generalizing s with
  | nil => exact Iff.rfl
  | cons b bs ih => simp [SafeRun, ih]

/-- Actions that depend on the part of their agent only, and when safe leave the others alone. -/
structure Local (exec : σ → α → σ) (agent : α → ι) (same : ι → σ → σ → Prop)
    (Safe : α → σ → Prop) : Prop where
  refl : ∀ i s, same i s s
  trans : ∀ {i s s' s''}, same i s s' → same i s' s'' → same i s s''
  safe : ∀ {a s s'}, same (agent a) s s' → Safe a s' → Safe a s
  congr : ∀ {a s s'}, same (agent a) s s' → Safe a s' → same (agent a) (exec s a) (exec s' a)
  frame : ∀ {a s i}, Safe a s → agent a ≠ i → same i (exec s a) s

/-- The last action of a run, and the ones before it, are safe for their agents. -/
theorem safeRun_filter_concat [DecidableEq ι] {exec : σ → α → σ} {agent : α → ι}
    {Safe : α → σ → Prop} {s : σ} {as : List α} {a : α}
    (hsafe : ∀ i, SafeRun exec Safe s ((as ++ [a]).filter fun a => agent a = i)) :
    (∀ i, SafeRun exec Safe s (as.filter fun a => agent a = i)) ∧
      Safe a ((as.filter fun b => agent b = agent a).foldl exec s) := by
  constructor
  · intro i
    have := hsafe i
    rw [List.filter_append, safeRun_append] at this
    exact this.1
  · have := hsafe (agent a)
    rw [List.filter_append, safeRun_append, List.filter_singleton] at this
    simp only [decide_true, cond_true, SafeRun, and_true] at this
    exact this.2

/-- If the actions of each agent on their own run safely, then in any order of all actions that
keeps theirs each agent finds its part as after its own actions alone. -/
theorem Local.foldl [DecidableEq ι] {exec : σ → α → σ} {agent : α → ι}
    {same : ι → σ → σ → Prop} {Safe : α → σ → Prop} (h : Local exec agent same Safe) {s : σ}
    (as : List α) (hsafe : ∀ i, SafeRun exec Safe s (as.filter fun a => agent a = i)) (i : ι) :
    same i (as.foldl exec s) ((as.filter fun a => agent a = i).foldl exec s) := by
  induction as using List.reverseRecOn generalizing i with
  | nil => exact h.refl i s
  | append_singleton as a ih =>
    obtain ⟨hbefore, hlast⟩ := safeRun_filter_concat hsafe
    rw [List.foldl_append, List.filter_append, List.foldl_append, List.filter_singleton]
    by_cases ha : agent a = i
    · subst ha
      simp only [List.foldl_cons, List.foldl_nil, decide_true, cond_true]
      exact h.congr (ih hbefore (agent a)) hlast
    · simp only [ha, decide_false, cond_false, List.foldl_cons, List.foldl_nil]
      exact h.trans (h.frame (h.safe (ih hbefore (agent a)) hlast) ha) (ih hbefore i)

/-- Then every action is safe where it is taken among the others. -/
theorem Local.safeRun [DecidableEq ι] {exec : σ → α → σ} {agent : α → ι}
    {same : ι → σ → σ → Prop} {Safe : α → σ → Prop} (h : Local exec agent same Safe) {s : σ}
    (as : List α) (hsafe : ∀ i, SafeRun exec Safe s (as.filter fun a => agent a = i)) :
    SafeRun exec Safe s as := by
  induction as using List.reverseRecOn with
  | nil => trivial
  | append_singleton as a ih =>
    obtain ⟨hbefore, hlast⟩ := safeRun_filter_concat hsafe
    exact safeRun_append.mpr ⟨ih hbefore, h.safe (h.foldl as hbefore (agent a)) hlast, trivial⟩

end HashJoin.Interleave
