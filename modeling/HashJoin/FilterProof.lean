import HashJoin.InnerColumnProof

/-!
# Filters by table and by record

A filter evaluated on whole columns selects the rows on whose records it is true, and
`from_inner_to_column` writes those rows, whatever the last byte of the bitmap holds past them.
-/

namespace HashJoin

open Bytes

/-! ## Tables -/

/-- The calls that fill a column, `push_back` of a value or `push_back_null`. -/
inductive ColumnCalls where
  | int32 (calls : List (Option Int32))
  | varchar (calls : List (Option (List UInt8)))

namespace ColumnCalls

def length : ColumnCalls → Nat
  | int32 calls => calls.length
  | varchar calls => calls.length

def type : ColumnCalls → DataType
  | int32 _ => .int32
  | varchar _ => .varchar

/-- The column after the calls. -/
def build : ColumnCalls → InnerColumnBase
  | int32 calls => .int32 (calls.foldl InnerColumn.push {})
  | varchar calls => .varchar (calls.foldl InnerStringColumn.push {})

/-- The value pushed for row `i`. -/
def value : ColumnCalls → Nat → Data
  | int32 calls, i => cellOf Data.int32 (valueAt calls i)
  | varchar calls, i => cellOf Data.varchar (valueAt calls i)

/-- The pages with the given rows of the column. -/
def write (fresh : Nat → Page) : ColumnCalls → List Nat → List Page
  | int32 calls, rows => ColumnInserter.write fresh (rows.map (valueAt calls))
  | varchar calls, rows => StringInserter.write fresh (rows.map (valueAt calls))

end ColumnCalls

/-- The record of row `i`. -/
def recordOf (columns : List ColumnCalls) (i : Nat) : List Data := columns.map (·.value i)

/-- The operator and the literal suit the type of the column: a NULL test, a comparison with a
literal in the range of the type, or `LIKE` on strings. -/
def Comparison.Fits (op : Op) (value : Literal) : DataType → Prop
  | .int32 => op = .isNull ∨ op = .isNotNull ∨ (op.relation Int32).isSome ∧
      ∃ w : Int64, value = .int64 w ∧ -2 ^ 31 ≤ w.toInt ∧ w.toInt < 2 ^ 31
  | .varchar => op = .isNull ∨ op = .isNotNull ∨ ∃ s, value = .varchar s
  | .int64 | .fp64 => False

def Statement.WellTyped (types : List DataType) : Statement → Prop
  | .comparison column op value => ∃ t, types[column]? = some t ∧ Comparison.Fits op value t
  | .and l r | .or l r => l.WellTyped types ∧ r.WellTyped types
  | .not child => child.WellTyped types

/-! ## One comparison -/

theorem toInt32_toInt {w : Int64} (hlo : -2 ^ 31 ≤ w.toInt) (hhi : w.toInt < 2 ^ 31) :
    w.toInt32.toInt = w.toInt := by
  rw [Int64.toInt_toInt32]
  exact Int.bmod_eq_of_le (by omega) (by omega)

namespace Comparison

variable {n : Nat} (hn : 0 < n) (sched : List Nat) (likeMatch : List UInt8 → List UInt8 → Bool)
include hn

theorem evalFixed_ok {rows : List (Option Int32)} {c : InnerColumn Int32} (h : c.Holds rows)
    {op : Op} {value : Literal} (hfits : Fits op value .int32) :
    ∃ ret, evalFixed n sched c op value.getInt32 = .ok ret ∧
      Selects rows.length
        (fun i => evalData likeMatch op (cellOf Data.int32 (valueAt rows i)) value) ret := by
  rcases hfits with rfl | rfl | ⟨hop, w, rfl, hlo, hhi⟩
  · obtain ⟨ret, hret, hsel⟩ := bitmapNot_ok hn sched h.bitmap
    refine ⟨ret, hret, hsel.congr fun i _ => ?_⟩
    cases valueAt rows i <;> rfl
  · refine ⟨c.bitmap, rfl, h.bitmap.congr fun i _ => ?_⟩
    cases valueAt rows i <;> rfl
  · have hw := toInt32_toInt hlo hhi
    obtain ⟨ret, hret, hsel⟩ := h.kernel hn sched fun v => op.compare v w.toInt32
    refine ⟨ret, ?_, hsel.congr fun i _ => ?_⟩
    · rw [← hret]
      cases op <;> first | rfl | simp [Op.relation] at hop
    · cases valueAt rows i with
      | none =>
        have hne : op ≠ .isNull := by
          rintro rfl
          simp [Op.relation] at hop
        exact (evalData_null hne _).symm
      | some v => exact (evalData_int32 hop v hw).symm

theorem evalVarchar_ok {rows : List (Option (List UInt8))} {c : InnerStringColumn}
    (h : c.Holds rows) {op : Op} {value : Literal} (hfits : Fits op value .varchar) :
    ∃ ret, evalVarchar n sched likeMatch c op value.getString = .ok ret ∧
      Selects rows.length
        (fun i => evalData likeMatch op (cellOf Data.varchar (valueAt rows i)) value) ret := by
  by_cases hnull : op = .isNull
  · subst hnull
    obtain ⟨ret, hret, hsel⟩ := bitmapNot_ok hn sched h.bitmap
    refine ⟨ret, hret, hsel.congr fun i _ => ?_⟩
    cases valueAt rows i <;> rfl
  by_cases hnotNull : op = .isNotNull
  · subst hnotNull
    refine ⟨c.bitmap, rfl, h.bitmap.congr fun i _ => ?_⟩
    cases valueAt rows i <;> rfl
  obtain ⟨t, rfl⟩ := (hfits.resolve_left hnull).resolve_left hnotNull
  obtain ⟨ret, hret, hsel⟩ :=
    h.kernel hn sched fun s => evalData likeMatch op (.varchar s) (.varchar t)
  refine ⟨ret, ?_, hsel.congr fun i _ => ?_⟩
  · rw [← hret]
    cases op <;> first | rfl | contradiction
  · cases valueAt rows i with
    | none => exact (evalData_null hnull _).symm
    | some s => rfl

/-- A comparison on a column says of each row what it says of its value. -/
theorem evalColumn_ok (column : ColumnCalls) {op : Op} {value : Literal}
    (hfits : Fits op value column.type) :
    ∃ ret, evalColumn n sched likeMatch column.build op value = .ok ret ∧
      Selects column.length (fun i => evalData likeMatch op (column.value i) value) ret := by
  cases column with
  | int32 calls =>
    have h := InnerColumn.Holds.empty.foldl calls
    exact evalFixed_ok hn sched likeMatch h hfits
  | varchar calls =>
    have h := InnerStringColumn.Holds.empty.foldl calls
    exact evalVarchar_ok hn sched likeMatch h hfits

end Comparison

/-! ## The tree -/

/-- The bitmap of a filter and its value on the record of each row. -/
theorem Statement.evalTable_ok {n : Nat} (hn : 0 < n) (likeMatch : List UInt8 → List UInt8 → Bool)
    {columns : List ColumnCalls} {rows : Nat} (hrows : ∀ c ∈ columns, c.length = rows)
    {stmt : Statement} (htyped : stmt.WellTyped (columns.map ColumnCalls.type))
    (sched : List Bool → List Nat) :
    ∃ (bitmap : List UInt8) (p : Nat → Bool),
      stmt.evalTable n likeMatch (columns.map ColumnCalls.build) sched = .ok bitmap ∧
      Selects rows p bitmap ∧ ∀ i, stmt.eval likeMatch (recordOf columns i) = .ok (p i) := by
  induction stmt generalizing sched with
  | comparison column op value =>
    obtain ⟨t, ht, hfits⟩ := htyped
    rw [List.getElem?_map, Option.map_eq_some_iff] at ht
    obtain ⟨c, hc, rfl⟩ := ht
    obtain ⟨ret, hret, hsel⟩ := Comparison.evalColumn_ok hn (sched []) likeMatch c hfits
    rw [hrows c (List.mem_of_getElem? hc)] at hsel
    refine ⟨ret, _, ?_, hsel, fun i => ?_⟩
    · simp [evalTable, hc, hret]
    · simp [eval, recordOf, hc]
  | and l r ihl ihr =>
    obtain ⟨lhs, p, hlhs, hp, hevalL⟩ := ihl htyped.1 fun path => sched (false :: path)
    obtain ⟨rhs, q, hrhs, hq, hevalR⟩ := ihr htyped.2 fun path => sched (true :: path)
    obtain ⟨ret, hret, hsel⟩ := bitmapAnd_ok hn (sched []) hp hq
    refine ⟨ret, _, by rw [evalTable, hlhs, ok_bind, hrhs, ok_bind, hret], hsel, fun i => ?_⟩
    unfold eval
    rw [hevalL, ok_bind, hevalR]
    cases p i <;> rfl
  | or l r ihl ihr =>
    obtain ⟨lhs, p, hlhs, hp, hevalL⟩ := ihl htyped.1 fun path => sched (false :: path)
    obtain ⟨rhs, q, hrhs, hq, hevalR⟩ := ihr htyped.2 fun path => sched (true :: path)
    obtain ⟨ret, hret, hsel⟩ := bitmapOr_ok hn (sched []) hp hq
    refine ⟨ret, _, by rw [evalTable, hlhs, ok_bind, hrhs, ok_bind, hret], hsel, fun i => ?_⟩
    unfold eval
    rw [hevalL, ok_bind, hevalR]
    cases p i <;> rfl
  | not child ih =>
    obtain ⟨bitmap, p, hbitmap, hp, heval⟩ := ih htyped fun path => sched (false :: path)
    obtain ⟨ret, hret, hsel⟩ := bitmapNot_ok hn (sched []) hp
    refine ⟨ret, _, by rw [evalTable, hbitmap, ok_bind, hret], hsel, fun i => ?_⟩
    unfold eval
    rw [heval, ok_bind]

/-! ## The rows written -/

/-- `from_inner_to_column` puts the rows that the bitmap selects, in order. -/
theorem selectRows_ok {α σ : Type} (put : σ → Option α → σ) {rows : List (Option α)}
    {bitmap : List UInt8} {get : Nat → Except EvalFault α} (d : α)
    (hbitmap : Selects rows.length (fun i => (valueAt rows i).isSome) bitmap)
    (hget : ∀ i < rows.length, get i = .ok ((valueAt rows i).getD d)) {results : List UInt8}
    {p : Nat → Bool} (hresults : Selects rows.length p results) (inserter : σ) {k : Nat}
    (hk : k ≤ rows.length) :
    FromInner.selectRows put bitmap get results k inserter =
      .ok ((((List.range k).filter p).map (valueAt rows)).foldl put inserter,
        ((List.range k).filter p).length) := by
  induction k with
  | zero => rfl
  | succ k ih =>
    have hrow : k < rows.length := hk
    obtain ⟨byte, hbyte, hbit⟩ := hresults.byteAt hrow
    unfold FromInner.selectRows at ih ⊢
    rw [List.range_succ, List.foldlM_append, ih (by omega), ok_bind, List.foldlM_cons, hbyte,
      ok_bind, hbit, hbitmap.isNotNull hrow]
    by_cases hp : p k
    · rw [if_pos hp, ok_bind, List.filter_append, List.filter_cons_of_pos hp]
      have hget' := hget k hrow
      cases hv : valueAt rows k with
      | none => simp [hv]
      | some v =>
        rw [hv] at hget'
        simp [hv, hget']
    · simp [hp]

theorem fromInnerToColumn_ok (fresh : Nat → Page) (column : ColumnCalls) {results : List UInt8}
    {p : Nat → Bool} (hresults : Selects column.length p results) :
    fromInnerToColumn fresh column.build results column.length =
      .ok (column.write fresh ((List.range column.length).filter p),
        ((List.range column.length).filter p).length) := by
  cases column with
  | int32 calls =>
    have h : (calls.foldl InnerColumn.push {}).Holds calls := InnerColumn.Holds.empty.foldl calls
    have hsel := selectRows_ok (ColumnInserter.put fresh) default h.bitmap (fun i hi => h.get hi)
      hresults {} le_rfl
    unfold fromInnerToColumn
    simp only [ColumnCalls.build, fromInnerToColumn.fixed]
    unfold ColumnCalls.length
    rw [hsel, ok_bind]
    rfl
  | varchar calls =>
    have h : (calls.foldl InnerStringColumn.push {}).Holds calls :=
      InnerStringColumn.Holds.empty.foldl calls
    have hsel := selectRows_ok (StringInserter.put fresh) [] h.bitmap (fun i hi => h.get hi)
      hresults {} le_rfl
    unfold fromInnerToColumn
    simp only [ColumnCalls.build]
    unfold ColumnCalls.length
    rw [hsel, ok_bind]
    rfl

/-- The bitmap of a filter has one bit per row, set if and only if the filter is true on the record
of the row; the two operands of `bitmap_and` and `bitmap_or` always have the same size, since the
evaluation does not stop; and from any bitmap with these bits the rows written are those on whose
records the filter is true. -/
theorem evalTable_eval {n : Nat} (hn : 0 < n) (likeMatch : List UInt8 → List UInt8 → Bool)
    (fresh : Nat → Page) {columns : List ColumnCalls} {rows : Nat}
    (hrows : ∀ c ∈ columns, c.length = rows) {stmt : Statement}
    (htyped : stmt.WellTyped (columns.map ColumnCalls.type)) (sched : List Bool → List Nat) :
    ∃ bitmap, stmt.evalTable n likeMatch (columns.map ColumnCalls.build) sched = .ok bitmap ∧
      bitmap.length = (rows + 7) / 8 ∧
      (∀ i < rows, stmt.eval likeMatch (recordOf columns i) = .ok (bitOf bitmap i)) ∧
      ∀ results : List UInt8, results.length = bitmap.length →
        (∀ i < rows, bitOf results i = bitOf bitmap i) → ∀ c ∈ columns,
          fromInnerToColumn fresh c.build results rows =
            let kept := (List.range rows).filter fun i =>
              stmt.eval likeMatch (recordOf columns i) = .ok true
            .ok (c.write fresh kept, kept.length) := by
  obtain ⟨bitmap, p, hbitmap, hsel, heval⟩ :=
    Statement.evalTable_ok hn likeMatch hrows htyped sched
  refine ⟨bitmap, hbitmap, hsel.size, fun i hi => by rw [heval, hsel.bit i hi], ?_⟩
  intro results hsize hbits c hc
  have hresults : Selects c.length p results := by
    rw [hrows c hc]
    exact ⟨hsize.trans hsel.size, fun i hi => (hbits i hi).trans (hsel.bit i hi)⟩
  have hkept : (fun i => decide (stmt.eval likeMatch (recordOf columns i) = .ok true)) = p := by
    funext i
    simp [heval]
  rw [hkept, ← hrows c hc]
  exact fromInnerToColumn_ok fresh c hresults

/-- `NOT (a = 5)` on the rows 5 and NULL, with twelve threads that take their turns backwards. -/
theorem evalTable_eval_notFive :
    ∃ bitmap, (Statement.not (.comparison 0 .eq (.int64 5))).evalTable 12 (fun _ _ => false)
        [(ColumnCalls.int32 [some 5, none]).build] (fun _ => (List.range 12).reverse) = .ok bitmap ∧
      bitmap.length = 1 ∧ bitOf bitmap 0 = false ∧ bitOf bitmap 1 = true := by
  have htyped : (Statement.not (.comparison 0 .eq (.int64 5))).WellTyped
      ([ColumnCalls.int32 [some 5, none]].map ColumnCalls.type) :=
    ⟨.int32, rfl, .inr (.inr ⟨rfl, 5, rfl, by decide, by decide⟩)⟩
  obtain ⟨bitmap, hbitmap, hsize, hbits, -⟩ :=
    evalTable_eval (n := 12) (by decide) (fun _ _ => false) (fun _ => Buf.zero 8192)
      (show ∀ c ∈ [ColumnCalls.int32 [some 5, none]], c.length = 2 by simp [ColumnCalls.length])
      htyped fun _ => (List.range 12).reverse
  refine ⟨bitmap, hbitmap, hsize, ?_, ?_⟩
  · exact Except.ok.inj ((hbits 0 (by decide)).symm.trans (by decide +kernel))
  · exact Except.ok.inj ((hbits 1 (by decide)).symm.trans (by decide +kernel))

end HashJoin
