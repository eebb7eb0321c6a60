import HashJoin.FilterNull
import HashJoin.ParseExpr

/-!
# What a split `WHERE` clause means

The filters and the equalities of columns that `parse_expr` makes of a `WHERE` clause select the
combinations of rows that satisfy the clause. The exception is an equality of columns under `NOT`:
it is united as if the `NOT` were not there.
-/

namespace HashJoin

/-! ## The meaning of a `WHERE` clause -/

/-- Two values that are not NULL and equal. -/
def Data.equates (a b : Data) : Bool := a ≠ .null ∧ a = b

/-- The value of a column in the row of an entity. -/
def columnValue (rows : TableEntity → List Data) (column : String) (entity : TableEntity) : Data :=
  match columnIdx column entity with
  | .ok idx => (rows entity).getD idx .null
  | .error _ => .null

section Meaning

variable (scope : Scope) (columnToTables : String → Option (List String))
  (likeMatch : List UInt8 → List UInt8 → Bool) (rows : TableEntity → List Data)

def ColumnRef.value (ref : ColumnRef) : Data :=
  match extractColumnAndTable scope columnToTables 0 ref with
  | .ok (column, entity) => columnValue rows column entity
  | .error _ => .null

def Operand.value : Operand → Data
  | columnRef ref => ref.value scope columnToTables rows
  | _ => .null

/-- A comparison with a literal is true, which it is not if one of the two is NULL. -/
def literalHolds (op : Op) (data : Data) (operand : Operand) : Bool :=
  match operand.literal with
  | .ok value => Comparison.sql likeMatch op data value = .true
  | .error _ => false

/-- Two columns are equal and not NULL. -/
def equalityHolds (pair : Operand × ColumnRef) : Bool :=
  (pair.1.value scope columnToTables rows).equates (pair.2.value scope columnToTables rows)

namespace Expr

/-- The truth of a condition for one row of each entity. -/
def holds : Expr → Bool
  | and expr expr2 => expr.holds && expr2.holds
  | or expr expr2 => expr.holds || expr2.holds
  | not expr => !expr.holds
  | compare op expr (.columnRef ref) =>
    op = .equals && equalityHolds scope columnToTables rows (expr, ref)
  | compare op expr expr2 =>
    literalHolds likeMatch op.toOp (expr.value scope columnToTables rows) expr2
  | like negated expr expr2 =>
    literalHolds likeMatch (if negated then .notLike else .like)
      (expr.value scope columnToTables rows) expr2
  | between expr low high =>
    literalHolds likeMatch .geq (expr.value scope columnToTables rows) low &&
      literalHolds likeMatch .leq (expr.value scope columnToTables rows) high
  | .in expr exprList =>
    exprList.any (literalHolds likeMatch .eq (expr.value scope columnToTables rows))
  | isNull expr => expr.value scope columnToTables rows = .null
  | otherOperator _ | other _ => false

end Expr

end Meaning

namespace Expr

/-- The equalities of two columns in a condition. -/
def columnEqualities : Expr → List (Operand × ColumnRef)
  | and expr expr2 | or expr expr2 => expr.columnEqualities ++ expr2.columnEqualities
  | not expr => expr.columnEqualities
  | compare .equals expr (.columnRef ref) => [(expr, ref)]
  | _ => []

def isColumnEquality : Expr → Bool
  | compare .equals _ (.columnRef _) => true
  | _ => false

/-- An equality of columns is inside the condition. The parser only accepts it under a `NOT`. -/
def negatesEquality (expr : Expr) : Bool :=
  !expr.isColumnEquality && !expr.columnEqualities.isEmpty

/-- The conditions that the `AND`s at the top connect. -/
def conjuncts : Expr → List Expr
  | and expr expr2 => expr.conjuncts ++ expr2.conjuncts
  | expr => [expr]

/-- No list of an `IN` is empty. -/
def WellFormed : Expr → Prop
  | and expr expr2 | or expr expr2 => expr.WellFormed ∧ expr2.WellFormed
  | not expr => expr.WellFormed
  | .in _ exprList => exprList ≠ []
  | _ => True

/-- If all other conjuncts hold, those with an equality of columns under `NOT` hold exactly if all
these equalities do. -/
def EqualitiesSettled (scope : Scope) (columnToTables : String → Option (List String))
    (likeMatch : List UInt8 → List UInt8 → Bool) (rows : TableEntity → List Data) (expr : Expr) :
    Prop :=
  (∀ c ∈ expr.conjuncts, c.negatesEquality = false →
      c.holds scope columnToTables likeMatch rows = true) →
    ((∀ c ∈ expr.conjuncts, c.negatesEquality = true →
        c.holds scope columnToTables likeMatch rows = true) ↔
      ∀ c ∈ expr.conjuncts, c.negatesEquality = true →
        ∀ pair ∈ c.columnEqualities, equalityHolds scope columnToTables rows pair = true)

end Expr

/-! ## The meaning of what is left of it -/

section Satisfied

variable (scope : Scope) (likeMatch : List UInt8 → List UInt8 → Bool)
  (rows : TableEntity → List Data)

/-- Each entity has a row of its table. -/
def Scope.RowsFit : Prop :=
  ∀ entity ∈ scope.entities, ∀ attributes, attributesMap entity.table = some attributes →
    List.Forall₂ Data.HasType (rows entity) (attributes.map Attribute.type)

/-- The value of the column of that number. -/
def Scope.valueOf (idx : Nat) : Data :=
  match scope.columnVec[idx]? with
  | some (entity, column) => columnValue rows column entity
  | none => .null

def Filter.Satisfied (record : List Data) : Filter → Prop
  | statement stmt => stmt.eval likeMatch record = .ok true
  | nullChild => False

def ParseOut.Satisfied (out : ParseOut) : Prop :=
  ∀ stmt, out.statement = some stmt → out.entity ∈ scope.entities →
    stmt.Satisfied likeMatch (rows out.entity)

/-- The row of each entity satisfies its filter, and the united columns are equal. -/
structure ParseState.Satisfied (state : ParseState) : Prop where
  filters : ∀ entity ∈ scope.entities, ∀ stmt, state.filters entity = some stmt →
    stmt.Satisfied likeMatch (rows entity)
  united : ∀ pair ∈ state.united,
    (scope.valueOf rows pair.1).equates (scope.valueOf rows pair.2) = true

end Satisfied

/-! ## Literals -/

namespace Comparison

variable {likeMatch : List UInt8 → List UInt8 → Bool}

/-- An `INT32` value and any integer literal compare as integers, although by way of doubles. -/
theorem evalData_int64 {op : Op} (h : (op.relation Int32).isSome) (v : Int32) (w : Int64) :
    evalData likeMatch op (.int32 v) (.int64 w) = op.compare v.toInt w.toInt := by
  have hsmall : v.toInt.natAbs < 2 ^ 53 := by
    have := v.toInt_lt
    have := v.le_toInt
    omega
  obtain ⟨hless, hgreater, hequal⟩ := Double.compare_ofInt hsmall w.toInt
  have hcompare : op.compare (Double.ofInt v.toInt) (Double.ofInt w.toInt) =
      op.compare v.toInt w.toInt := op.compare_congr hless hgreater hequal
  rw [← hcompare]
  cases op <;> first | rfl | simp [Op.relation] at h

/-- On the values of the tables the evaluation is what SQL says, unknown being false. -/
theorem evalData_eq_sql {t : DataType} (ht : t = .int32 ∨ t = .varchar) {data : Data}
    (hdata : data.HasType t) (op : Op) {value : Literal} (hvalue : ∀ bits, value ≠ .fp64 bits) :
    evalData likeMatch op data value = decide (sql likeMatch op data value = .true) := by
  cases data with
  | null => cases op <;> rfl
  | int32 v =>
    cases value with
    | int64 w =>
      by_cases h : (op.relation Int32).isSome
      · rw [evalData_int64 h]
        cases op <;> simp [sql, Op.relation] at h ⊢
      · cases op <;> simp [Op.relation] at h <;> rfl
    | fp64 bits => exact absurd rfl (hvalue bits)
    | varchar s => cases op <;> rfl
    | null => cases op <;> rfl
  | int64 v => rcases ht with rfl | rfl <;> cases hdata
  | fp64 bits => rcases ht with rfl | rfl <;> cases hdata
  | varchar s =>
    cases value with
    | int64 w => cases op <;> rfl
    | fp64 bits => exact absurd rfl (hvalue bits)
    | varchar t => cases op <;> simp [sql, evalData, evalLike, evalString, Data.getNumericValue]
    | null => cases op <;> rfl

end Comparison

end HashJoin
