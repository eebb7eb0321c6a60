import Mathlib.Data.List.Sort

/-!
# Sorting

A comparison that orders the values with a property `P`, lists compared by their first difference,
and sorting: two lists are sorted to the same list exactly when they have the same values.
-/

namespace HashJoin.Sorting

variable {α : Type} {less : α → α → Bool} {P : α → Prop}

/-- On the values with `P`, `less` is a strict order that has all pairs of different ones. -/
structure Orders (less : α → α → Bool) (P : α → Prop) : Prop where
  asymm : ∀ {a b}, P a → P b → less a b = true → less b a = false
  trans : ∀ {a b c}, P a → P b → P c → less a b = true → less b c = true → less a c = true
  eq : ∀ {a b}, P a → P b → less a b = false → less b a = false → a = b

theorem Orders.irrefl (h : Orders less P) {a : α} (ha : P a) : less a a = false := by
  by_contra hless
  rw [Bool.not_eq_false] at hless
  exact Bool.false_ne_true ((h.asymm ha ha hless).symm.trans hless)

/-- Of three values in an order that may have equal ones. -/
theorem Orders.not_less_trans (h : Orders less P) {a b c : α} (ha : P a) (hb : P b) (hc : P c)
    (hab : less b a = false) (hbc : less c b = false) : less c a = false := by
  by_contra hca
  rw [Bool.not_eq_false] at hca
  by_cases hba : less a b = true
  · exact Bool.false_ne_true (hbc.symm.trans (h.trans hc ha hb hca hba))
  · rw [Bool.not_eq_true] at hba
    obtain rfl := h.eq ha hb hba hab
    exact Bool.false_ne_true (hbc.symm.trans hca)

/-! ## Lists by their first difference -/

/-- The first pair of different values decides, and else the shorter list is less. -/
def lexLess (less : α → α → Bool) : List α → List α → Bool
  | _, [] => false
  | [], _ :: _ => true
  | a :: as, b :: bs =>
    if less a b then true
    else if less b a then false
    else lexLess less as bs

theorem Orders.lexLess_cons (h : Orders less P) {a b : α} (ha : P a) (hb : P b)
    (as bs : List α) : lexLess less (a :: as) (b :: bs) = true ↔
      less a b = true ∨ a = b ∧ lexLess less as bs = true := by
  change (if less a b then true else if less b a then false else lexLess less as bs) = true ↔ _
  by_cases hab : less a b = true
  · simp [hab]
  · rw [Bool.not_eq_true] at hab
    by_cases hba : less b a = true
    · have hne : a ≠ b := fun heq => by
        rw [heq, h.irrefl hb] at hba
        cases hba
      simp [hab, hba, hne]
    · rw [Bool.not_eq_true] at hba
      simp [h.eq ha hb hab hba, h.irrefl hb]

theorem Orders.lex (h : Orders less P) : Orders (lexLess less) fun l => ∀ a ∈ l, P a := by
  refine ⟨fun {l m} hl hm hless => ?_, fun {l m k} hl hm hk hlm hmk => ?_,
    fun {l m} hl hm hlm hml => ?_⟩
  · induction l generalizing m with
    | nil => cases m <;> rfl
    | cons a l ih =>
      cases m with
      | nil => cases hless
      | cons b m =>
        rw [List.forall_mem_cons] at hl hm
        rw [h.lexLess_cons hl.1 hm.1] at hless
        rw [← Bool.not_eq_true, h.lexLess_cons hm.1 hl.1]
        rintro (hba | ⟨rfl, hml⟩)
        · rcases hless with hab | ⟨rfl, -⟩
          · exact Bool.false_ne_true ((h.asymm hl.1 hm.1 hab).symm.trans hba)
          · exact Bool.false_ne_true ((h.irrefl hl.1).symm.trans hba)
        · rcases hless with hab | ⟨-, hlm⟩
          · exact Bool.false_ne_true ((h.irrefl hl.1).symm.trans hab)
          · exact Bool.false_ne_true ((ih hl.2 hm.2 hlm).symm.trans hml)
  · induction l generalizing m k with
    | nil =>
      cases k with
      | nil =>
        cases m with
        | nil => cases hlm
        | cons b m => cases hmk
      | cons c k => rfl
    | cons a l ih =>
      cases m with
      | nil => cases hlm
      | cons b m =>
        cases k with
        | nil => cases hmk
        | cons c k =>
          rw [List.forall_mem_cons] at hl hm hk
          rw [h.lexLess_cons hl.1 hm.1] at hlm
          rw [h.lexLess_cons hm.1 hk.1] at hmk
          rw [h.lexLess_cons hl.1 hk.1]
          rcases hlm with hab | ⟨rfl, hlm⟩
          · rcases hmk with hbc | ⟨rfl, -⟩
            · exact .inl (h.trans hl.1 hm.1 hk.1 hab hbc)
            · exact .inl hab
          · rcases hmk with hbc | ⟨rfl, hmk⟩
            · exact .inl hbc
            · exact .inr ⟨rfl, ih hl.2 hm.2 hk.2 hlm hmk⟩
  · induction l generalizing m with
    | nil =>
      cases m with
      | nil => rfl
      | cons b m => cases hlm
    | cons a l ih =>
      cases m with
      | nil => cases hml
      | cons b m =>
        rw [List.forall_mem_cons] at hl hm
        rw [← Bool.not_eq_true, h.lexLess_cons hl.1 hm.1, not_or] at hlm
        rw [← Bool.not_eq_true, h.lexLess_cons hm.1 hl.1, not_or] at hml
        obtain rfl := h.eq hl.1 hm.1 (Bool.not_eq_true _ ▸ hlm.1) (Bool.not_eq_true _ ▸ hml.1)
        simp only [true_and, Bool.not_eq_true] at hlm hml
        rw [ih hl.2 hm.2 hlm.2 hml.2]

/-! ## Sorted lists -/

/-- The values of a list in ascending order. -/
def sort (less : α → α → Bool) (l : List α) : List α := l.mergeSort fun a b => !less b a

theorem sort_perm (less : α → α → Bool) (l : List α) : (sort less l).Perm l :=
  List.mergeSort_perm l _

@[simp] theorem length_sort (less : α → α → Bool) (l : List α) :
    (sort less l).length = l.length := List.length_mergeSort l

/-- Sorting only compares values of the list, so an order on those is enough. -/
theorem Orders.pairwise_sort (h : Orders less P) {l : List α} (hl : ∀ a ∈ l, P a) :
    (sort less l).Pairwise fun a b => less b a = false := by
  let r : {a // P a} → {a // P a} → Bool := fun a b => !less b.1 a.1
  have hsort : ((l.attachWith P hl).mergeSort r).map Subtype.val = sort less l := by
    rw [List.map_mergeSort (s := fun a b => !less b a) fun _ _ _ _ => rfl,
      List.attachWith_map_subtype_val]
    rfl
  rw [← hsort, List.pairwise_map]
  refine (List.pairwise_mergeSort (fun a b c hab hbc => ?_) (fun a b => ?_) _).imp
    fun {a b} hab => ?_
  · simp only [r, Bool.not_eq_true'] at hab hbc ⊢
    exact h.not_less_trans a.2 b.2 c.2 hab hbc
  · simp only [r, Bool.or_eq_true, Bool.not_eq_true']
    by_cases hba : less b.1 a.1 = true
    · exact .inr (h.asymm b.2 a.2 hba)
    · exact .inl (Bool.not_eq_true _ ▸ hba)
  · simpa [r] using hab

/-- Two lists are sorted to the same one exactly when they have the same values. -/
theorem Orders.sort_eq_iff (h : Orders less P) {l m : List α} (hl : ∀ a ∈ l, P a)
    (hm : ∀ a ∈ m, P a) : sort less l = sort less m ↔ l.Perm m := by
  constructor
  · intro heq
    exact (sort_perm less l).symm.trans (heq ▸ sort_perm less m)
  · intro hperm
    refine List.Perm.eq_of_pairwise (fun a b ha hb hab hba => ?_) (h.pairwise_sort hl)
      (h.pairwise_sort hm) ((sort_perm less l).trans (hperm.trans (sort_perm less m).symm))
    exact h.eq (hl a ((sort_perm less l).mem_iff.mp ha)) (hm b ((sort_perm less m).mem_iff.mp hb))
      hba hab

end HashJoin.Sorting
