import Mathlib.Tactic

/-!
# Runs that are bounded

A system takes steps of its own, and its environment disturbs it. If a potential falls with every
step of the system and rises by at most `c` with every disturbance, a run has only so many steps of
the system. From every state the system then comes, left alone, to one where it has no step.
-/

namespace HashJoin.Progress

variable {σ : Type}

/-- A run with `m` steps of the system and `k` disturbances. -/
inductive Run (own disturbed : σ → σ → Prop) : Nat → Nat → σ → σ → Prop where
  | refl (s : σ) : Run own disturbed 0 0 s s
  | own {m k : Nat} {s s' s'' : σ} : Run own disturbed m k s s' → own s' s'' →
      Run own disturbed (m + 1) k s s''
  | disturbed {m k : Nat} {s s' s'' : σ} : Run own disturbed m k s s' → disturbed s' s'' →
      Run own disturbed m (k + 1) s s''

/-- The system has no step. -/
def Rests (own : σ → σ → Prop) (s : σ) : Prop := ∀ s', ¬ own s s'

variable {own disturbed : σ → σ → Prop} {m k : Nat} {s s' : σ}

theorem Run.invariant {I : σ → Prop} (hown : ∀ s s', I s → own s s' → I s')
    (hdisturbed : ∀ s s', I s → disturbed s s' → I s') (h : Run own disturbed m k s s')
    (hs : I s) : I s' := by
  induction h with
  | refl => exact hs
  | own _ hstep ih => exact hown _ _ (ih hs) hstep
  | disturbed _ hstep ih => exact hdisturbed _ _ (ih hs) hstep

theorem Run.steps (h : Run own disturbed m 0 s s') : Relation.ReflTransGen own s s' := by
  generalize hk : 0 = k at h
  induction h with
  | refl => exact .refl
  | own _ hstep ih => exact .tail (ih hk) hstep
  | disturbed => cases hk

variable {potential : σ → Nat} {c : Nat}
  (hown : ∀ s s', own s s' → potential s' < potential s)
include hown

theorem Run.bound (hdisturbed : ∀ s s', disturbed s s' → potential s' ≤ potential s + c)
    (h : Run own disturbed m k s s') : m + potential s' ≤ potential s + c * k := by
  induction h with
  | refl => omega
  | own _ hstep ih =>
    have := hown _ _ hstep
    omega
  | disturbed _ hstep ih =>
    have := hdisturbed _ _ hstep
    rw [Nat.mul_succ]
    omega

/-- Left alone the system comes to rest. -/
theorem exists_rests (disturbed : σ → σ → Prop) (s : σ) :
    ∃ m s', Run own disturbed m 0 s s' ∧ Rests own s' := by
  suffices h : ∀ p m s', Run own disturbed m 0 s s' → potential s' = p →
      ∃ m s', Run own disturbed m 0 s s' ∧ Rests own s' from h _ 0 s (.refl s) rfl
  intro p
  induction p using Nat.strong_induction_on with
  | h p ih =>
    rintro m s' hrun rfl
    by_cases hrests : Rests own s'
    · exact ⟨m, s', hrun, hrests⟩
    · obtain ⟨s'', hstep⟩ := not_forall_not.mp hrests
      exact ih _ (hown s' s'' hstep) _ s'' (hrun.own hstep) rfl

end HashJoin.Progress
