import HashJoin.Lib.Double
import HashJoin.Plan

/-!
# Filters

The tree of a filter and its evaluation on one record, `Statement::eval(record)`. `LIKE` is
decided by `like_match`, which stays a parameter here: it hands the pattern to a regular-expression
library.
-/

namespace HashJoin

/-! ## The tree -/

/-- `Comparison::Op`. -/
inductive Op where
  | eq
  | neq
  | lt
  | gt
  | leq
  | geq
  | like
  | notLike
  | isNull
  | isNotNull
  deriving DecidableEq

inductive Literal where
  | int64 (v : Int64)
  | fp64 (bits : UInt64)
  | varchar (s : List UInt8)
  | null
  deriving DecidableEq

/-- A comparison of a column with a literal, or a `LogicalOperation` as `makeAnd`, `makeOr` and
`makeNot` build it. -/
inductive Statement where
  | comparison (column : Nat) (op : Op) (value : Literal)
  | and (l r : Statement)
  | or (l r : Statement)
  | not (child : Statement)
  deriving DecidableEq

/-- Why an evaluation stops. -/
inductive EvalFault where
  /-- An access outside a vector, which is undefined behaviour. -/
  | outOfRange
  /-- `std::get` on a literal of another type throws. -/
  | badVariantAccess
  /-- `unreachable()`, which is undefined behaviour. -/
  | unreachable
  | assertion
  deriving DecidableEq

/-! ## The comparison operators -/

/-- `<` and `==` of a type, which give the other four. -/
class Comparable (T : Type) where
  less : T → T → Bool
  equal : T → T → Bool

namespace Comparable

variable {T : Type} [Comparable T]

def greater (x y : T) : Bool := less y x

def lessEqual (x y : T) : Bool := less x y || equal x y

def greaterEqual (x y : T) : Bool := less y x || equal x y

def notEqual (x y : T) : Bool := !equal x y

end Comparable

instance : Comparable Int32 := ⟨fun x y => x < y, fun x y => x = y⟩
instance : Comparable Int64 := ⟨fun x y => x < y, fun x y => x = y⟩
instance : Comparable Double := ⟨Double.less, Double.equal⟩

/-- Strings compare byte by byte. -/
instance : Comparable (List UInt8) := ⟨fun x y => x < y, fun x y => x = y⟩

namespace Op

/-- The comparison of two values that an operator stands for, if it is one of the first six. -/
def relation (T : Type) [Comparable T] : Op → Option (T → T → Bool)
  | eq => some Comparable.equal
  | neq => some Comparable.notEqual
  | lt => some Comparable.less
  | gt => some Comparable.greater
  | leq => some Comparable.lessEqual
  | geq => some Comparable.greaterEqual
  | like | notLike | isNull | isNotNull => none

def compare {T : Type} [Comparable T] (op : Op) (x y : T) : Bool :=
  match op.relation T with
  | some r => r x y
  | none => false

/-- Two values that are less or equal as two others are compare like them. -/
theorem compare_congr {S T : Type} [Comparable S] [Comparable T] (op : Op) {x y : S} {x' y' : T}
    (hless : Comparable.less x y = Comparable.less x' y')
    (hgreater : Comparable.less y x = Comparable.less y' x')
    (hequal : Comparable.equal x y = Comparable.equal x' y') :
    op.compare x y = op.compare x' y' := by
  cases op <;>
    simp [compare, relation, Comparable.greater, Comparable.lessEqual, Comparable.greaterEqual,
      Comparable.notEqual, hless, hgreater, hequal]

end Op

/-! ## Evaluation on a record -/

/-- `get_numeric_value` of a value. -/
def Data.getNumericValue : Data → Option Double
  | .int32 v => some (.ofInt v.toInt)
  | .int64 v => some (.ofInt v.toInt)
  | .fp64 bits => some (.ofBits bits)
  | .varchar _ | .null => none

/-- `get_numeric_value` of a literal. -/
def Literal.getNumericValue : Literal → Option Double
  | .int64 v => some (.ofInt v.toInt)
  | .fp64 bits => some (.ofBits bits)
  | .varchar _ | .null => none

section Record

variable (likeMatch : List UInt8 → List UInt8 → Bool)

namespace Comparison

/-- The tests by `LIKE`, which hold of two strings only. -/
def evalLike (op : Op) : Data → Literal → Bool
  | .varchar s, .varchar pattern => if op = .like then likeMatch s pattern else !likeMatch s pattern
  | _, _ => false

/-- The comparison of two strings; false of anything else. -/
def evalString (op : Op) : Data → Literal → Bool
  | .varchar s, .varchar t => op.compare s t
  | _, _ => false

/-- `Comparison::eval(record)` on the value of its column. -/
def evalData (op : Op) (data : Data) (value : Literal) : Bool :=
  match op with
  | .isNull => data = .null
  | .isNotNull => data ≠ .null
  | .like | .notLike => evalLike likeMatch op data value
  | op =>
    match data.getNumericValue, value.getNumericValue with
    | some x, some y => op.compare x y
    | _, _ => evalString op data value

end Comparison

/-- `Statement::eval(record)`. -/
def Statement.eval (record : List Data) : Statement → Except EvalFault Bool
  | .comparison column op value =>
    match record[column]? with
    | some data => .ok (Comparison.evalData likeMatch op data value)
    | none => .error .outOfRange
  | .and l r => do if ← l.eval record then r.eval record else .ok false
  | .or l r => do if ← l.eval record then .ok true else r.eval record
  | .not child => do .ok (!(← child.eval record))

end Record

/-! ## NULL values and small integers -/

namespace Comparison

variable {likeMatch : List UInt8 → List UInt8 → Bool}

/-- No comparison but a NULL test holds of NULL. -/
theorem evalData_null {op : Op} (h : op ≠ .isNull) (value : Literal) :
    evalData likeMatch op .null value = false := by
  cases op <;> first | contradiction | rfl

/-- An `INT32` value and a literal in its range compare as integers, although by way of doubles. -/
theorem evalData_int32 {op : Op} (h : (op.relation Int32).isSome) (v : Int32) {w : Int64}
    (hw : w.toInt32.toInt = w.toInt) :
    evalData likeMatch op (.int32 v) (.int64 w) = op.compare v w.toInt32 := by
  have hsmall : ∀ x : Int32, x.toInt.natAbs < 2 ^ 53 := fun x => by
    have := x.toInt_lt
    have := x.le_toInt
    omega
  have hcompare : op.compare (Double.ofInt v.toInt) (Double.ofInt w.toInt32.toInt) =
      op.compare v w.toInt32 := by
    refine op.compare_congr ?_ ?_ ?_
    · refine (Double.less_ofInt (hsmall _) (hsmall _)).trans (decide_eq_decide.mpr ?_)
      exact Int32.lt_iff_toInt_lt.symm
    · refine (Double.less_ofInt (hsmall _) (hsmall _)).trans (decide_eq_decide.mpr ?_)
      exact Int32.lt_iff_toInt_lt.symm
    · refine (Double.equal_ofInt (hsmall _) (hsmall _)).trans (decide_eq_decide.mpr ?_)
      exact Int32.toInt_inj
  rw [← hcompare, hw]
  cases op <;> first | rfl | simp [Op.relation] at h

end Comparison

end HashJoin
