import Mathlib.Tactic

/-!
# Intrusive lists

A list whose elements hold the link to the next one themselves, in a memory that holds other things
too. It stays as long as no link of it is overwritten, and a new element goes to its front.
-/

namespace HashJoin.IntrusiveList

variable {ρ : Type} (null : ρ)

/-- The links lead from `head` through the elements to `null`. Where there is no link, `next` is
`none`. -/
def IsList (next : ρ → Option ρ) : ρ → List ρ → Prop
  | head, [] => head = null
  | head, a :: rest => head = a ∧ a ≠ null ∧ ∃ n, next a = some n ∧ IsList next n rest

variable {null} {next next' : ρ → Option ρ} {head : ρ} {l : List ρ}

theorem IsList.frame (h : IsList null next head l) (hsame : ∀ a ∈ l, next' a = next a) :
    IsList null next' head l := by
  induction l generalizing head with
  | nil => exact h
  | cons a rest ih =>
    obtain ⟨rfl, hnull, n, hn, hrest⟩ := h
    refine ⟨rfl, hnull, n, (hsame _ List.mem_cons_self).trans hn, ?_⟩
    exact ih hrest fun b hb => hsame b (List.mem_cons_of_mem _ hb)

theorem IsList.push (h : IsList null next head l) {a : ρ} (ha : a ≠ null)
    (hlink : next' a = some head) (hsame : ∀ b ∈ l, next' b = next b) :
    IsList null next' a (a :: l) :=
  ⟨rfl, ha, head, hlink, h.frame hsame⟩

end HashJoin.IntrusiveList
