import Mathlib.Tactic

/-!
# Buckets

The elements of a list by a key, and where a counting sort puts them: those with key `s` after the
ones with a smaller key, in their order.
-/

namespace HashJoin.Buckets

variable {α : Type} (f : α → Nat)

/-- The elements with key `s`. -/
def bucket (l : List α) (s : Nat) : List α := l.filter (f · = s)

/-- The number of elements with a key below `s`. -/
def below (l : List α) (s : Nat) : Nat := (l.filter (f · < s)).length

@[simp] theorem bucket_nil (s : Nat) : bucket f [] s = [] := rfl

theorem bucket_concat (l : List α) (a : α) (s : Nat) :
    bucket f (l ++ [a]) s = if f a = s then bucket f l s ++ [a] else bucket f l s := by
  unfold bucket
  rw [List.filter_append, List.filter_singleton]
  split
  · next h => simp [h]
  · next h => simp [h]

/-- A bucket ends where the next one begins. -/
theorem below_succ (l : List α) (s : Nat) :
    below f l (s + 1) = below f l s + (bucket f l s).length := by
  unfold below bucket
  induction l with
  | nil => rfl
  | cons a l ih =>
    simp only [List.filter_cons]
    by_cases hlt : f a < s
    · have h1 : f a < s + 1 := by omega
      have h2 : ¬ f a = s := by omega
      simp only [hlt, h1, h2, decide_true, decide_false, if_true, List.length_cons]
      simp only [Bool.false_eq_true, if_false]
      omega
    · by_cases heq : f a = s
      · simp only [heq, Nat.lt_irrefl, Nat.lt_succ_self, decide_true, decide_false, if_true,
          Bool.false_eq_true, if_false, List.length_cons]
        omega
      · have h1 : ¬ f a < s + 1 := by omega
        simp only [hlt, heq, h1, decide_false, Bool.false_eq_true, if_false]
        exact ih

theorem below_mono (l : List α) {s s' : Nat} (h : s ≤ s') : below f l s ≤ below f l s' := by
  induction h with
  | refl => exact le_rfl
  | step _ ih =>
    rw [below_succ]
    omega

theorem below_le_length (l : List α) (s : Nat) : below f l s ≤ l.length :=
  List.length_filter_le _ l

theorem below_eq_length {l : List α} {s : Nat} (h : ∀ a ∈ l, f a < s) : below f l s = l.length := by
  unfold below
  rw [List.filter_eq_self.mpr (by simpa using h)]

theorem below_eq_zero {l : List α} {s : Nat} (h : ∀ a ∈ l, s ≤ f a) : below f l s = 0 := by
  unfold below
  rw [List.filter_eq_nil_iff.mpr (by simpa using h)]
  rfl

/-- The places of different buckets are apart. -/
theorem place_inj (l : List α) {s s' j j' : Nat} (hj : j < (bucket f l s).length)
    (hj' : j' < (bucket f l s').length) (h : below f l s + j = below f l s' + j') :
    s = s' ∧ j = j' := by
  rcases Nat.lt_trichotomy s s' with hlt | rfl | hlt
  · have := below_mono f l hlt
    rw [below_succ] at this
    omega
  · omega
  · have := below_mono f l hlt
    rw [below_succ] at this
    omega

/-- A part of the list has smaller buckets. -/
theorem length_bucket_append (l l' : List α) (s : Nat) :
    (bucket f (l ++ l') s).length = (bucket f l s).length + (bucket f l' s).length := by
  rw [bucket, List.filter_append, List.length_append]
  rfl

/-- Below a key there are the elements whose coarser key is smaller, and of those with the same
coarser key the ones below. -/
theorem below_coarse {g : α → Nat} {m : Nat} {l : List α} (hg : ∀ a ∈ l, f a / m = g a) (s : Nat) :
    below f l (s + 1) = below g l (s / m) + below f (bucket g l (s / m)) (s + 1) := by
  unfold below bucket
  induction l with
  | nil => rfl
  | cons a l ih =>
    have ih := ih fun b hb => hg b (List.mem_cons_of_mem _ hb)
    have ha := hg a List.mem_cons_self
    simp only [List.filter_cons]
    by_cases hlt : g a < s / m
    · have hne : ¬ g a = s / m := by omega
      have hle : f a < s + 1 := by
        by_contra hge
        have : s / m ≤ f a / m := Nat.div_le_div_right (by omega)
        omega
      simp only [hlt, hne, hle, decide_true, decide_false, if_true, Bool.false_eq_true, if_false,
        List.length_cons]
      omega
    · by_cases heq : g a = s / m
      · simp only [heq, Nat.lt_irrefl, decide_true, decide_false, Bool.false_eq_true, if_false,
          if_true, List.filter_cons]
        split
        · rw [List.length_cons, List.length_cons]
          omega
        · exact ih
      · have hge : ¬ f a < s + 1 := by
          intro hle
          have : f a / m ≤ s / m := Nat.div_le_div_right (by omega)
          omega
        simp only [hlt, heq, hge, decide_false, Bool.false_eq_true, if_false]
        exact ih

/-- The buckets one after another have the elements below. -/
theorem flatMap_bucket_perm (l : List α) (m : Nat) :
    ((List.range m).flatMap (bucket f l)).Perm (l.filter (f · < m)) := by
  induction m with
  | zero => simp
  | succ m ih =>
    have hsplit := List.filter_append_perm (fun a => decide (f a < m)) (l.filter (f · < m + 1))
    rw [List.filter_filter, List.filter_filter] at hsplit
    have hlow : l.filter (fun a => decide (f a < m) && decide (f a < m + 1)) =
        l.filter (f · < m) := by
      apply List.filter_congr
      intro a _
      by_cases h : f a < m
      · simp [h, Nat.lt_succ_of_lt h]
      · simp [h]
    have hhigh : l.filter (fun a => !decide (f a < m) && decide (f a < m + 1)) = bucket f l m := by
      apply List.filter_congr
      intro a _
      by_cases h : f a = m
      · simp [h]
      · by_cases h' : f a < m
        · simp [h, h']
        · have : ¬ f a < m + 1 := by omega
          simp [h, this]
    rw [hlow, hhigh] at hsplit
    rw [List.range_succ, List.flatMap_append, List.flatMap_singleton]
    exact (ih.append_right _).trans hsplit

/-- A storage that has the elements of each bucket at their places. -/
theorem map_range_below {l : List α} {b : Nat → List α} {mem : Nat → α} {m : Nat}
    (hlen : ∀ i < m, (b i).length = (bucket f l i).length)
    (hmem : ∀ i < m, ∀ j < (b i).length, (b i)[j]? = some (mem (below f l i + j))) :
    (List.range (below f l m)).map mem = (List.range m).flatMap b := by
  induction m with
  | zero => rw [below_eq_zero f fun _ _ => Nat.zero_le _]; rfl
  | succ m ih =>
    have ih := ih (fun i hi => hlen i (by omega)) fun i hi => hmem i (by omega)
    rw [below_succ, List.range_add, List.map_append, ih, List.range_succ, List.flatMap_append,
      List.flatMap_singleton, List.map_map, ← hlen m (Nat.lt_succ_self m)]
    congr 1
    refine List.ext_getElem? fun j => ?_
    by_cases hj : j < (b m).length
    · rw [List.getElem?_map, List.getElem?_range hj, hmem m (Nat.lt_succ_self m) j hj]
      rfl
    · rw [List.getElem?_eq_none (by simpa using hj), List.getElem?_eq_none (by omega)]

/-- Buckets in order are sorted. -/
theorem pairwise_flatMap_bucket {b : Nat → List α} {m : Nat} (hb : ∀ i, ∀ a ∈ b i, f a = i) :
    ((List.range m).flatMap b).Pairwise fun a a' => f a ≤ f a' := by
  refine List.pairwise_flatMap.mpr ⟨fun i _ => ?_, ?_⟩
  · exact List.pairwise_of_forall_mem_list fun a ha a' ha' =>
      ((hb i a ha).trans (hb i a' ha').symm).le
  · refine List.pairwise_lt_range.imp fun hlt a ha a' ha' => ?_
    rw [hb _ a ha, hb _ a' ha']
    exact hlt.le

end HashJoin.Buckets
