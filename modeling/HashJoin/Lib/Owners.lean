import Mathlib.Tactic

/-!
# Owners

What finitely many owners hold together, before and after one of them has changed, and reference
counts: the number of owners that point to a resource.
-/

namespace HashJoin.Owners

variable {ι ρ : Type} [DecidableEq ι]

/-- A sum after one of its terms has changed. -/
theorem sum_update {α : Type} (s : Finset ι) (f : ι → α) (size : α → Nat) {i : ι} (hi : i ∈ s)
    (a : α) :
    ∑ j ∈ s, size (Function.update f i a j) + size (f i) = ∑ j ∈ s, size (f j) + size a := by
  have hrest : ∑ j ∈ s.erase i, size (Function.update f i a j) = ∑ j ∈ s.erase i, size (f j) :=
    Finset.sum_congr rfl fun j hj => by rw [Function.update_of_ne (Finset.ne_of_mem_erase hj)]
  rw [← Finset.add_sum_erase s _ hi, ← Finset.add_sum_erase s (fun j => size (f j)) hi, hrest,
    Function.update_self]
  ring

variable [DecidableEq ρ]

/-- The number of owners that point to `r`. -/
def references (owners : Finset ι) (points : ι → Option ρ) (r : ρ) : Nat :=
  (owners.filter fun i => points i = some r).card

omit [DecidableEq ι] in
theorem references_pos_iff {owners : Finset ι} {points : ι → Option ρ} {r : ρ} :
    0 < references owners points r ↔ ∃ i ∈ owners, points i = some r := by
  unfold references
  rw [Finset.card_pos, Finset.filter_nonempty_iff]

/-- An owner changes what it points to. -/
theorem references_update {owners : Finset ι} (points : ι → Option ρ) {i : ι} (hi : i ∈ owners)
    (p : Option ρ) (r : ρ) :
    references owners (Function.update points i p) r + (if points i = some r then 1 else 0) =
      references owners points r + (if p = some r then 1 else 0) := by
  unfold references
  rw [Finset.card_filter, Finset.card_filter]
  exact sum_update owners points (fun q => if q = some r then 1 else 0) hi p

/-- An owner that points nowhere does not count. -/
theorem references_insert {owners : Finset ι} {points : ι → Option ρ} {i : ι}
    (hi : points i = none) (r : ρ) :
    references (insert i owners) points r = references owners points r := by
  unfold references
  rw [Finset.filter_insert, if_neg (by simp [hi])]

/-- An owner hands over what it points to. -/
theorem references_move {owners : Finset ι} {points : ι → Option ρ} {i j : ι} (hi : i ∈ owners)
    (hj : j ∈ owners) (hij : j ≠ i) (hfree : points i = none) (r : ρ) :
    references owners (Function.update (Function.update points i (points j)) j none) r =
      references owners points r := by
  have htake := references_update points hi (points j) r
  have hgive := references_update (Function.update points i (points j)) hj none r
  rw [Function.update_of_ne hij] at hgive
  rw [hfree] at htake
  simp only [reduceCtorEq, if_false] at htake hgive
  omega

end HashJoin.Owners
