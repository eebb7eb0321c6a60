import HashJoin.FilterNull

/-!
# Integer columns and integer literals

On a column a literal is narrowed to the 32 bits of an `INT32`, and on a record both sides become
doubles. So a column of `INT32` goes wrong on literals outside its range, and a record with an
`INT64` on two integers with the same nearest double, but not with every operator.
-/

namespace HashJoin

open Bytes

/-! ## Integer columns -/

/-- A value of an integer column. -/
inductive IntValue where
  | int32 (v : Int32)
  | int64 (v : Int64)
  deriving DecidableEq

namespace IntValue

def toInt : IntValue → Int
  | int32 v => v.toInt
  | int64 v => v.toInt

/-- The value in a record. -/
def data : IntValue → Data
  | int32 v => .int32 v
  | int64 v => .int64 v

end IntValue

/-- The calls that fill an integer column. -/
inductive IntCalls where
  | int32 (calls : List (Option Int32))
  | int64 (calls : List (Option Int64))

namespace IntCalls

def build : IntCalls → InnerColumnBase
  | int32 calls => .int32 (calls.foldl InnerColumn.push {})
  | int64 calls => .int64 (calls.foldl InnerColumn.push {})

/-- The value of row `i`, if it is not NULL. -/
def value : IntCalls → Nat → Option IntValue
  | int32 calls, i => (valueAt calls i).map .int32
  | int64 calls, i => (valueAt calls i).map .int64

end IntCalls

/-! ## The exact comparisons -/

/-- The literal is in the range of `INT32`, or the narrowed one is on the same side of `v`. With
`=` and `!=` it is enough that the narrowed one is not `v`. -/
def Int32.NarrowsRight (op : Op) (v : Int32) (w : Int64) : Prop :=
  if w.toInt < -2 ^ 31 then
    match op with
    | .lt | .geq => w.toInt32.toInt ≤ v.toInt
    | .gt | .leq => w.toInt32.toInt < v.toInt
    | _ => w.toInt32.toInt ≠ v.toInt
  else if 2 ^ 31 ≤ w.toInt then
    match op with
    | .lt | .geq => v.toInt < w.toInt32.toInt
    | .gt | .leq => v.toInt ≤ w.toInt32.toInt
    | _ => v.toInt ≠ w.toInt32.toInt
  else True

/-- The two integers have different nearest doubles, or they are in the order that the operator
finds between equal doubles. -/
def Int64.RoundsRight (op : Op) (v w : Int64) : Prop :=
  Double.ofInt v.toInt = Double.ofInt w.toInt →
    match op with
    | .lt | .geq => w ≤ v
    | .gt | .leq => v ≤ w
    | _ => v = w

/-- When both evaluations of a comparison with `w` are exact. -/
def IntValue.Exact (op : Op) (w : Int64) : IntValue → Prop
  | int32 v => Int32.NarrowsRight op v w
  | int64 v => Int64.RoundsRight op v w

namespace Op

variable {op : Op}

theorem compare_int32 (op : Op) (v w : Int32) : op.compare v w = op.compare v.toInt w.toInt := by
  refine op.compare_congr ?_ ?_ ?_
  · exact decide_eq_decide.mpr Int32.lt_iff_toInt_lt
  · exact decide_eq_decide.mpr Int32.lt_iff_toInt_lt
  · exact decide_eq_decide.mpr Int32.toInt_inj.symm

theorem compare_int64 (op : Op) (v w : Int64) : op.compare v w = op.compare v.toInt w.toInt := by
  refine op.compare_congr ?_ ?_ ?_
  · exact decide_eq_decide.mpr Int64.lt_iff_toInt_lt
  · exact decide_eq_decide.mpr Int64.lt_iff_toInt_lt
  · exact decide_eq_decide.mpr Int64.toInt_inj.symm

/-- Two comparisons of integers agree if one question has the same answer: whether the two are
equal, whether the left one is less, or whether the right one is. -/
theorem compare_int_iff (hop : (op.relation Int).isSome) (x y v w : Int) :
    op.compare x y = op.compare v w ↔
      match op with
      | .lt | .geq => (x < y ↔ v < w)
      | .gt | .leq => (y < x ↔ w < v)
      | _ => (x = y ↔ v = w) := by
  have hleq : ∀ a b : Int, Op.leq.compare a b = !decide (b < a) := fun a b => by
    rw [Bool.eq_iff_iff]
    simp [compare, relation, Comparable.lessEqual, Comparable.less, Comparable.equal]
    omega
  have hgeq : ∀ a b : Int, Op.geq.compare a b = !decide (a < b) := fun a b => by
    rw [Bool.eq_iff_iff]
    simp [compare, relation, Comparable.greaterEqual, Comparable.less, Comparable.equal]
    omega
  cases op with
  | eq => exact decide_eq_decide
  | neq => exact Bool.not_inj_iff.trans decide_eq_decide
  | lt => exact decide_eq_decide
  | gt => exact decide_eq_decide
  | leq =>
    rw [hleq, hleq]
    exact Bool.not_inj_iff.trans decide_eq_decide
  | geq =>
    rw [hgeq, hgeq]
    exact Bool.not_inj_iff.trans decide_eq_decide
  | _ => simp [relation] at hop

theorem compare_ofInt (op : Op) (v w : Int) :
    op.compare (Double.ofInt v) (Double.ofInt w) =
      op.compare (Double.roundInt v) (Double.roundInt w) := by
  refine op.compare_congr ?_ ?_ ?_
  · exact Double.less_ofInt_eq v w
  · exact Double.less_ofInt_eq w v
  · exact Double.equal_ofInt_eq v w

end Op

/-! ## The two evaluations -/

theorem Int32.narrowsRight_iff {op : Op} (hop : (op.relation Int).isSome) (v : Int32) (w : Int64) :
    op.compare v w.toInt32 = op.compare v.toInt w.toInt ↔ Int32.NarrowsRight op v w := by
  have hlo := v.le_toInt
  have hhi := v.toInt_lt
  rw [Op.compare_int32, Op.compare_int_iff hop]
  unfold NarrowsRight
  split_ifs with hbelow habove
  · cases op <;> simp only [Op.relation, Option.isSome, reduceCtorEq] at hop ⊢ <;> omega
  · cases op <;> simp only [Op.relation, Option.isSome, reduceCtorEq] at hop ⊢ <;> omega
  · rw [toInt32_toInt (not_lt.mp hbelow) (not_le.mp habove)]
    cases op <;> simp

theorem Int64.roundsRight_iff {op : Op} (hop : (op.relation Int).isSome) (v w : Int64) :
    op.compare (Double.ofInt v.toInt) (Double.ofInt w.toInt) = op.compare v.toInt w.toInt ↔
      Int64.RoundsRight op v w := by
  have hle : v.toInt ≤ w.toInt → Double.roundInt v.toInt ≤ Double.roundInt w.toInt :=
    fun h => Double.roundInt_mono h
  have hge : w.toInt ≤ v.toInt → Double.roundInt w.toInt ≤ Double.roundInt v.toInt :=
    fun h => Double.roundInt_mono h
  rw [Op.compare_ofInt, Op.compare_int_iff hop]
  unfold RoundsRight
  rw [Double.ofInt_inj]
  cases op <;> simp only [Op.relation, Option.isSome, reduceCtorEq] at hop ⊢ <;>
    simp only [Int64.le_iff_toInt_le, ← Int64.toInt_inj] <;> omega

/-- Rounding does no harm to an integer of 53 bits. -/
theorem Int64.roundsRight_of_lt (op : Op) {v : Int64} (hv : v.toInt.natAbs < 2 ^ 53) (w : Int64) :
    Int64.RoundsRight op v w := by
  intro heq
  have hequal := (Double.compare_ofInt hv w.toInt).2.2
  rw [Double.equal_ofInt_eq, decide_eq_decide, ← Double.ofInt_inj] at hequal
  obtain rfl : v = w := Int64.toInt_inj.mp (hequal.mp heq)
  cases op <;> simp

/-- On a column the bit of a value is its comparison with the literal as the column takes it. -/
theorem InnerColumn.Holds.evalFixed {T : Type} [Inhabited T] [Comparable T] {n : Nat} (hn : 0 < n)
    (sched : List Nat) {rows : List (Option T)} {c : InnerColumn T} (h : c.Holds rows) {op : Op}
    (hop : (op.relation Int).isSome) (w : T) :
    ∃ bitmap, Comparison.evalFixed n sched c op (.ok w) = .ok bitmap ∧
      ∀ i v, valueAt rows i = some v → bitOf bitmap i = op.compare v w := by
  obtain ⟨bitmap, hbitmap, hsel⟩ := h.kernel hn sched fun v => op.compare v w
  refine ⟨bitmap, ?_, fun i v hv => ?_⟩
  · rw [← hbitmap]
    cases op <;> first | rfl | simp [Op.relation] at hop
  · have hi : i < rows.length := by
      by_contra hge
      simp [valueAt, List.getElem?_eq_none (not_lt.mp hge)] at hv
    rw [hsel.bit i hi, hv]
    rfl

namespace IntCalls

/-- The bits of an integer column, of which an `INT32` column sees the narrowed literal. -/
theorem evalColumn_ok {n : Nat} (hn : 0 < n) (sched : List Nat)
    (likeMatch : List UInt8 → List UInt8 → Bool) {op : Op} (hop : (op.relation Int).isSome)
    (calls : IntCalls) (w : Int64) :
    ∃ bitmap, Comparison.evalColumn n sched likeMatch calls.build op (.int64 w) = .ok bitmap ∧
      ∀ i v, calls.value i = some v → bitOf bitmap i =
        match v with
        | .int32 v => op.compare v w.toInt32
        | .int64 v => op.compare v w := by
  cases calls with
  | int32 calls =>
    have h : (calls.foldl InnerColumn.push {}).Holds calls := InnerColumn.Holds.empty.foldl calls
    obtain ⟨bitmap, hbitmap, hbit⟩ := h.evalFixed hn sched hop w.toInt32
    refine ⟨bitmap, hbitmap, fun i v hv => ?_⟩
    obtain ⟨v, hrow, rfl⟩ := Option.map_eq_some_iff.mp hv
    exact hbit i v hrow
  | int64 calls =>
    have h : (calls.foldl InnerColumn.push {}).Holds calls := InnerColumn.Holds.empty.foldl calls
    obtain ⟨bitmap, hbitmap, hbit⟩ := h.evalFixed hn sched hop w
    refine ⟨bitmap, hbitmap, fun i v hv => ?_⟩
    obtain ⟨v, hrow, rfl⟩ := Option.map_eq_some_iff.mp hv
    exact hbit i v hrow

end IntCalls

namespace Comparison

variable {likeMatch : List UInt8 → List UInt8 → Bool} {op : Op}

theorem evalData_numeric (hop : (op.relation Int).isSome) {data : Data} {value : Literal}
    {x y : Double} (hx : data.getNumericValue = some x) (hy : value.getNumericValue = some y) :
    evalData likeMatch op data value = op.compare x y := by
  cases op <;> simp [Op.relation] at hop <;> simp [evalData, hx, hy]

/-- On a record an `INT32` value and any literal compare as integers. -/
theorem evalData_int32_exact (hop : (op.relation Int).isSome) (v : Int32) (w : Int64) :
    evalData likeMatch op (.int32 v) (.int64 w) = op.compare v.toInt w.toInt := by
  have hsmall : v.toInt.natAbs < 2 ^ 53 := by
    have := v.le_toInt
    have := v.toInt_lt
    omega
  obtain ⟨hless, hgreater, hequal⟩ := Double.compare_ofInt hsmall w.toInt
  rw [evalData_numeric hop rfl rfl]
  exact op.compare_congr hless hgreater hequal

end Comparison

/-- The bit of a row and the value of the comparison on its record are both the comparison of the
integers, exactly if narrowing the literal to an `INT32` does no harm, or rounding an `INT64` and
the literal to doubles. -/
theorem comparison_exact_iff {n : Nat} (hn : 0 < n) (likeMatch : List UInt8 → List UInt8 → Bool)
    {op : Op} (hop : (op.relation Int).isSome) (column : Nat) (w : Int64)
    {table : List InnerColumnBase} {calls : IntCalls} (htable : table[column]? = some calls.build)
    (sched : List Bool → List Nat) :
    ∃ bitmap, (Statement.comparison column op (.int64 w)).evalTable n likeMatch table sched =
        .ok bitmap ∧
      ∀ i v, calls.value i = some v → ∀ record : List Data, record[column]? = some v.data →
        (bitOf bitmap i = op.compare v.toInt w.toInt ∧
            (Statement.comparison column op (.int64 w)).eval likeMatch record =
              .ok (op.compare v.toInt w.toInt) ↔
          v.Exact op w) := by
  obtain ⟨bitmap, hbitmap, hbit⟩ := calls.evalColumn_ok hn (sched []) likeMatch hop w
  refine ⟨bitmap, ?_, fun i v hv record hrecord => ?_⟩
  · simp only [Statement.evalTable, htable, hbitmap]
  have heval : (Statement.comparison column op (.int64 w)).eval likeMatch record =
      .ok (Comparison.evalData likeMatch op v.data (.int64 w)) := by
    unfold Statement.eval
    rw [hrecord]
  rw [heval, Except.ok.injEq, hbit i v hv]
  cases v with
  | int32 v =>
    have hrow : Comparison.evalData likeMatch op (.int32 v) (.int64 w) =
        op.compare v.toInt w.toInt := Comparison.evalData_int32_exact hop v w
    exact (and_iff_left hrow).trans (Int32.narrowsRight_iff hop v w)
  | int64 v =>
    have hrow : Comparison.evalData likeMatch op (.int64 v) (.int64 w) =
        op.compare (Double.ofInt v.toInt) (Double.ofInt w.toInt) :=
      Comparison.evalData_numeric hop rfl rfl
    unfold IntValue.data
    rw [hrow]
    exact (and_iff_right (op.compare_int64 v w)).trans (Int64.roundsRight_iff hop v w)

/-- An `INT64` column with NULL and -5, and an `INT32` column with NULL and 5. -/
def fivesTable : List InnerColumnBase :=
  [(IntCalls.int64 [none, some (-5)]).build, (IntCalls.int32 [none, some 5]).build]

/-- Both fives are less than 7, and found to be. -/
theorem comparison_exact_iff_seven :
    ∃ bitmap bitmap',
      (Statement.comparison 1 .lt (.int64 7)).evalTable 12 (fun _ _ => false) fivesTable
        (fun _ => []) = .ok bitmap ∧
      (Statement.comparison 0 .lt (.int64 7)).evalTable 12 (fun _ _ => false) fivesTable
        (fun _ => []) = .ok bitmap' ∧
      bitOf bitmap 1 = true ∧ bitOf bitmap' 1 = true ∧
      (Statement.comparison 1 .lt (.int64 7)).eval (fun _ _ => false) [.int64 (-5), .int32 5] =
        .ok true ∧
      (Statement.comparison 0 .lt (.int64 7)).eval (fun _ _ => false) [.int64 (-5), .int32 5] =
        .ok true := by
  have hop : (Op.lt.relation Int).isSome := rfl
  have h32 : fivesTable[1]? = some (IntCalls.int32 [none, some 5]).build := rfl
  have h64 : fivesTable[0]? = some (IntCalls.int64 [none, some (-5)]).build := rfl
  obtain ⟨bitmap, hbitmap, hrow⟩ :=
    comparison_exact_iff (n := 12) (by decide) (fun _ _ => false) hop 1 7 h32 fun _ => []
  obtain ⟨bitmap', hbitmap', hrow'⟩ :=
    comparison_exact_iff (n := 12) (by decide) (fun _ _ => false) hop 0 7 h64 fun _ => []
  have hnarrows : (IntValue.int32 5).Exact .lt 7 := by
    simp [IntValue.Exact, Int32.NarrowsRight]
  have hrounds : (IntValue.int64 (-5)).Exact .lt 7 := Int64.roundsRight_of_lt .lt (by decide) 7
  have h := (hrow 1 (.int32 5) rfl [.int64 (-5), .int32 5] rfl).mpr hnarrows
  have h' := (hrow' 1 (.int64 (-5)) rfl [.int64 (-5), .int32 5] rfl).mpr hrounds
  exact ⟨bitmap, bitmap', hbitmap, hbitmap', h.1, h'.1, h.2, h'.2⟩

/-- 0 in an `INT32` column is found equal to 2^32, and in a record 2^53 + 1 to 2^53. -/
theorem not_comparison_exact :
    (∃ bitmap, (Statement.comparison 0 .eq (.int64 (2 ^ 32))).evalTable 1 (fun _ _ => false)
        [(IntCalls.int32 [some 0]).build] (fun _ => []) = .ok bitmap ∧
      bitOf bitmap 0 ≠ Op.eq.compare (0 : Int32).toInt (2 ^ 32 : Int64).toInt) ∧
    (Statement.comparison 0 .eq (.int64 (2 ^ 53))).eval (fun _ _ => false)
        [.int64 (2 ^ 53 + 1)] ≠
      .ok (Op.eq.compare (2 ^ 53 + 1 : Int64).toInt (2 ^ 53 : Int64).toInt) := by
  refine ⟨⟨[0x01], by decide +kernel, by decide +kernel⟩, ?_⟩
  decide +kernel

end HashJoin
