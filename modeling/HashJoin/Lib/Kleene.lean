import Mathlib.Tactic

/-!
# Three truth values

The logic of SQL conditions: a condition is true, false or unknown, and the connectives are those
of Kleene.
-/

namespace HashJoin

inductive Truth where
  | true
  | false
  | unknown
  deriving DecidableEq

namespace Truth

def ofBool (b : Bool) : Truth := if b then true else false

def not : Truth → Truth
  | true => false
  | false => true
  | unknown => unknown

def and : Truth → Truth → Truth
  | true, t => t
  | false, _ => false
  | unknown, false => false
  | unknown, _ => unknown

def or : Truth → Truth → Truth
  | true, _ => true
  | false, t => t
  | unknown, true => true
  | unknown, _ => unknown

@[simp] theorem ofBool_eq_true {b : Bool} : ofBool b = true ↔ b = Bool.true := by
  cases b <;> simp [ofBool]

@[simp] theorem ofBool_eq_false {b : Bool} : ofBool b = false ↔ b = Bool.false := by
  cases b <;> simp [ofBool]

@[simp] theorem not_eq_true {t : Truth} : t.not = true ↔ t = false := by
  cases t <;> simp [not]

@[simp] theorem not_eq_false {t : Truth} : t.not = false ↔ t = true := by
  cases t <;> simp [not]

@[simp] theorem and_eq_true {s t : Truth} : s.and t = true ↔ s = true ∧ t = true := by
  cases s <;> cases t <;> simp [and]

@[simp] theorem and_eq_false {s t : Truth} : s.and t = false ↔ s = false ∨ t = false := by
  cases s <;> cases t <;> simp [and]

@[simp] theorem or_eq_true {s t : Truth} : s.or t = true ↔ s = true ∨ t = true := by
  cases s <;> cases t <;> simp [or]

@[simp] theorem or_eq_false {s t : Truth} : s.or t = false ↔ s = false ∧ t = false := by
  cases s <;> cases t <;> simp [or]

end Truth

end HashJoin
