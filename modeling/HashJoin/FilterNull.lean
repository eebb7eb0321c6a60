import HashJoin.FilterProof
import HashJoin.Lib.Kleene

/-!
# Filters and SQL

In SQL a comparison with NULL is unknown, and so is its negation. The evaluation of a filter takes
it as false before any negation, so a `NOT` above it makes it true. A row comes out as in SQL when
it does not matter how the comparisons with NULL under an odd number of `NOT`s turn out.
-/

namespace HashJoin

open Bytes

/-! ## The SQL meaning of a filter -/

instance : Comparable Int := ⟨fun x y => x < y, fun x y => x = y⟩

namespace Comparison

variable (likeMatch : List UInt8 → List UInt8 → Bool)

/-- What SQL says of a comparison of a value with a literal of its type. -/
def sql (op : Op) (data : Data) (value : Literal) : Truth :=
  match op, data, value with
  | .isNull, data, _ => .ofBool (data = .null)
  | .isNotNull, data, _ => .ofBool (data ≠ .null)
  | _, .null, _ => .unknown
  | .like, .varchar s, .varchar pattern => .ofBool (likeMatch s pattern)
  | .notLike, .varchar s, .varchar pattern => (Truth.ofBool (likeMatch s pattern)).not
  | op, .varchar s, .varchar t => .ofBool (op.compare s t)
  | op, .int32 v, .int64 w => .ofBool (op.compare v.toInt w.toInt)
  | _, _, _ => .unknown

end Comparison

namespace Statement

variable (likeMatch : List UInt8 → List UInt8 → Bool) (record : List Data)

def sql : Statement → Truth
  | comparison column op value => Comparison.sql likeMatch op (record.getD column .null) value
  | and l r => l.sql.and r.sql
  | or l r => l.sql.or r.sql
  | not child => child.sql.not

/-- The value of a filter if every comparison with NULL under an odd number of `NOT`s, this filter
being under `negated` itself, has the value `assumed`. -/
def evalAssuming (assumed : Bool) : (negated : Bool) → Statement → Bool
  | negated, comparison column op value =>
    if record.getD column .null = .null ∧ op ≠ .isNull ∧ op ≠ .isNotNull ∧ negated then assumed
    else Comparison.evalData likeMatch op (record.getD column .null) value
  | negated, and l r => l.evalAssuming assumed negated && r.evalAssuming assumed negated
  | negated, or l r => l.evalAssuming assumed negated || r.evalAssuming assumed negated
  | negated, not child => !child.evalAssuming assumed !negated

/-- It does not matter for the filter how the comparisons with NULL under an odd number of `NOT`s
turn out. -/
def NullsSettled (stmt : Statement) : Prop :=
  ∀ assumed, stmt.evalAssuming likeMatch record assumed false =
    stmt.evalAssuming likeMatch record false false

end Statement

/-! ## The two evaluations -/

namespace Comparison

variable {likeMatch : List UInt8 → List UInt8 → Bool}

/-- A comparison of a value that is not NULL is true or false in SQL as in the evaluation. -/
theorem sql_eq_ofBool {op : Op} {column : ColumnCalls} {value : Literal}
    (hfits : Fits op value column.type) {i : Nat}
    (h : column.value i ≠ .null ∨ op = .isNull ∨ op = .isNotNull) :
    sql likeMatch op (column.value i) value =
      .ofBool (evalData likeMatch op (column.value i) value) := by
  cases column with
  | int32 calls =>
    simp only [ColumnCalls.value] at h ⊢
    cases hv : valueAt calls i with
    | none =>
      rw [hv] at h
      rcases h with h | rfl | rfl
      · exact absurd rfl h
      · rfl
      · rfl
    | some v =>
      rcases hfits with rfl | rfl | ⟨hop, w, rfl, hlo, hhi⟩
      · rfl
      · rfl
      · have hw := toInt32_toInt hlo hhi
        have hcompare : op.compare v.toInt w.toInt = op.compare v w.toInt32 := by
          rw [← hw]
          refine op.compare_congr ?_ ?_ ?_
          · exact decide_eq_decide.mpr Int32.lt_iff_toInt_lt.symm
          · exact decide_eq_decide.mpr Int32.lt_iff_toInt_lt.symm
          · exact decide_eq_decide.mpr Int32.toInt_inj
        unfold cellOf
        rw [evalData_int32 hop v hw, ← hcompare]
        cases op <;> first | rfl | simp [Op.relation] at hop
  | varchar calls =>
    simp only [ColumnCalls.value] at h ⊢
    cases hv : valueAt calls i with
    | none =>
      rw [hv] at h
      rcases h with h | rfl | rfl
      · exact absurd rfl h
      · rfl
      · rfl
    | some s =>
      rcases hfits with rfl | rfl | ⟨t, rfl⟩
      · rfl
      · rfl
      · cases op with
        | notLike => cases hm : likeMatch s t <;> simp [sql, evalData, evalLike, cellOf, hm] <;> rfl
        | _ => rfl

end Comparison

namespace Statement

variable {likeMatch : List UInt8 → List UInt8 → Bool} {columns : List ColumnCalls}

theorem getD_recordOf {column : Nat} {c : ColumnCalls} (hc : columns[column]? = some c) (i : Nat) :
    (recordOf columns i).getD column .null = c.value i := by
  simp [recordOf, hc]

/-- The column of a comparison of a well-typed filter. -/
theorem WellTyped.column {column : Nat} {op : Op} {value : Literal}
    (h : (comparison column op value).WellTyped (columns.map ColumnCalls.type)) :
    ∃ c, columns[column]? = some c ∧ Comparison.Fits op value c.type := by
  obtain ⟨t, ht, hfits⟩ := h
  rw [List.getElem?_map, Option.map_eq_some_iff] at ht
  obtain ⟨c, hc, rfl⟩ := ht
  exact ⟨c, hc, hfits⟩

/-- With every such comparison false the value is that of the evaluation. -/
theorem eval_eq_evalAssuming {stmt : Statement}
    (htyped : stmt.WellTyped (columns.map ColumnCalls.type)) (i : Nat) (negated : Bool) :
    stmt.eval likeMatch (recordOf columns i) =
      .ok (stmt.evalAssuming likeMatch (recordOf columns i) false negated) := by
  induction stmt generalizing negated with
  | comparison column op value =>
    obtain ⟨c, hc, -⟩ := htyped.column
    unfold evalAssuming
    rw [getD_recordOf hc]
    simp only [eval, recordOf, List.getElem?_map, hc, Option.map_some]
    split
    · next h => rw [h.1, Comparison.evalData_null h.2.1]
    · rfl
  | and l r ihl ihr =>
    unfold eval
    rw [ihl htyped.1 negated, ok_bind, ihr htyped.2 negated, evalAssuming]
    cases l.evalAssuming likeMatch (recordOf columns i) false negated <;> rfl
  | or l r ihl ihr =>
    unfold eval
    rw [ihl htyped.1 negated, ok_bind, ihr htyped.2 negated, evalAssuming]
    cases l.evalAssuming likeMatch (recordOf columns i) false negated <;> rfl
  | not child ih => rw [eval, ih htyped !negated, ok_bind, evalAssuming]

/-- With every such comparison true the filter is true exactly where it is true in SQL, and under
an odd number of `NOT`s false exactly where it is false in SQL. -/
theorem sql_iff_evalAssuming {stmt : Statement}
    (htyped : stmt.WellTyped (columns.map ColumnCalls.type)) (i : Nat) (negated : Bool) :
    stmt.sql likeMatch (recordOf columns i) = .ofBool (!negated) ↔
      stmt.evalAssuming likeMatch (recordOf columns i) true negated = !negated := by
  induction stmt generalizing negated with
  | comparison column op value =>
    obtain ⟨c, hc, hfits⟩ := htyped.column
    unfold sql
    rw [evalAssuming, getD_recordOf hc]
    by_cases h : c.value i ≠ .null ∨ op = .isNull ∨ op = .isNotNull
    · rw [Comparison.sql_eq_ofBool hfits h, if_neg (by tauto)]
      cases negated <;> simp [Truth.ofBool]
    · rw [not_or, not_or, not_not] at h
      obtain ⟨hnull, hop, hop'⟩ := h
      have hsql : Comparison.sql likeMatch op .null value = .unknown := by
        cases op <;> first | rfl | contradiction
      rw [hnull, hsql, Comparison.evalData_null hop]
      cases negated <;> simp [Truth.ofBool, hop, hop']
  | and l r ihl ihr =>
    have hl := ihl htyped.1 negated
    have hr := ihr htyped.2 negated
    cases negated with
    | false => simpa [sql, evalAssuming, Truth.ofBool] using and_congr hl hr
    | true =>
      unfold sql
      rw [evalAssuming, Bool.not_true, Bool.and_eq_false_iff]
      exact Truth.and_eq_false.trans (or_congr hl hr)
  | or l r ihl ihr =>
    have hl := ihl htyped.1 negated
    have hr := ihr htyped.2 negated
    cases negated with
    | false => simpa [sql, evalAssuming, Truth.ofBool] using or_congr hl hr
    | true => simpa [sql, evalAssuming, Truth.ofBool] using and_congr hl hr
  | not child ih =>
    have h := ih htyped !negated
    cases negated with
    | false => simpa [sql, evalAssuming, Truth.ofBool] using h
    | true => simpa [sql, evalAssuming, Truth.ofBool] using h

/-- Without a comparison with NULL under an odd number of `NOT`s nothing is left open. -/
def NoNegatedNull (record : List Data) : (negated : Bool) → Statement → Prop
  | negated, comparison column op _ =>
    negated = true → record.getD column .null ≠ .null ∨ op = .isNull ∨ op = .isNotNull
  | negated, and l r | negated, or l r =>
    l.NoNegatedNull record negated ∧ r.NoNegatedNull record negated
  | negated, not child => child.NoNegatedNull record !negated

theorem NoNegatedNull.evalAssuming_eq {record : List Data} {stmt : Statement} {negated : Bool}
    (h : stmt.NoNegatedNull record negated) (assumed : Bool) :
    stmt.evalAssuming likeMatch record assumed negated =
      stmt.evalAssuming likeMatch record false negated := by
  induction stmt generalizing negated with
  | comparison column op value =>
    have hneg : ¬ (record.getD column .null = .null ∧ op ≠ .isNull ∧ op ≠ .isNotNull ∧
        negated = true) := by
      rintro ⟨hnull, hop, hop', hn⟩
      rcases h hn with h | h | h
      · exact h hnull
      · exact hop h
      · exact hop' h
    rw [evalAssuming, evalAssuming, if_neg hneg, if_neg hneg]
  | and l r ihl ihr => rw [evalAssuming, evalAssuming, ihl h.1, ihr h.2]
  | or l r ihl ihr => rw [evalAssuming, evalAssuming, ihl h.1, ihr h.2]
  | not child ih => rw [evalAssuming, evalAssuming, ih h]

theorem NoNegatedNull.nullsSettled {record : List Data} {stmt : Statement}
    (h : stmt.NoNegatedNull record false) : stmt.NullsSettled likeMatch record :=
  h.evalAssuming_eq

end Statement

/-! ## The rows selected -/

/-- A row is selected exactly if the filter is true for it in SQL, provided that it does not matter
how the comparisons with NULL under an odd number of `NOT`s turn out, and only then. -/
theorem selects_sql_iff {n : Nat} (hn : 0 < n) (likeMatch : List UInt8 → List UInt8 → Bool)
    {columns : List ColumnCalls} {rows : Nat} (hrows : ∀ c ∈ columns, c.length = rows)
    {stmt : Statement} (htyped : stmt.WellTyped (columns.map ColumnCalls.type))
    (sched : List Bool → List Nat) :
    ∃ bitmap, stmt.evalTable n likeMatch (columns.map ColumnCalls.build) sched = .ok bitmap ∧
      ∀ i < rows, (bitOf bitmap i = true ↔ stmt.sql likeMatch (recordOf columns i) = .true) ↔
        stmt.NullsSettled likeMatch (recordOf columns i) := by
  obtain ⟨bitmap, p, hbitmap, hsel, heval⟩ :=
    Statement.evalTable_ok hn likeMatch hrows htyped sched
  refine ⟨bitmap, hbitmap, fun i hi => ?_⟩
  have hcode : bitOf bitmap i =
      stmt.evalAssuming likeMatch (recordOf columns i) false false := by
    rw [hsel.bit i hi]
    exact Except.ok.inj ((heval i).symm.trans (Statement.eval_eq_evalAssuming htyped i false))
  have hsql : stmt.sql likeMatch (recordOf columns i) = .true ↔
      stmt.evalAssuming likeMatch (recordOf columns i) true false = true :=
    Statement.sql_iff_evalAssuming htyped i false
  have hsettled : stmt.NullsSettled likeMatch (recordOf columns i) ↔
      stmt.evalAssuming likeMatch (recordOf columns i) true false =
        stmt.evalAssuming likeMatch (recordOf columns i) false false :=
    ⟨fun h => h true, fun h assumed => by cases assumed <;> first | rfl | exact h⟩
  rw [hcode, hsettled, hsql]
  cases stmt.evalAssuming likeMatch (recordOf columns i) true false <;>
    cases stmt.evalAssuming likeMatch (recordOf columns i) false false <;> simp

/-- `NOT (a = 5)` on a row where `a` is NULL. -/
def notFiveOfNull : Statement × List ColumnCalls :=
  (.not (.comparison 0 .eq (.int64 5)), [.int32 [some 7, none]])

/-- For SQL it is unknown, but the row is selected. -/
theorem not_selects_sql_notFive :
    ¬ ∀ bitmap, notFiveOfNull.1.evalTable 1 (fun _ _ => false)
        (notFiveOfNull.2.map ColumnCalls.build) (fun _ => []) = .ok bitmap →
      (bitOf bitmap 1 = true ↔
        notFiveOfNull.1.sql (fun _ _ => false) (recordOf notFiveOfNull.2 1) = .true) := by
  intro h
  have hbitmap : notFiveOfNull.1.evalTable 1 (fun _ _ => false)
      (notFiveOfNull.2.map ColumnCalls.build) (fun _ => []) = .ok [0xff] := by
    decide +kernel
  have hsql : notFiveOfNull.1.sql (fun _ _ => false) (recordOf notFiveOfNull.2 1) ≠ .true := by
    decide +kernel
  exact hsql ((h _ hbitmap).mp (by decide))

/-- The first row of that table, in which `a` is 7, is selected as in SQL. -/
theorem selects_sql_iff_notFive :
    ∃ bitmap, notFiveOfNull.1.evalTable 12 (fun _ _ => false)
        (notFiveOfNull.2.map ColumnCalls.build) (fun _ => []) = .ok bitmap ∧
      (bitOf bitmap 0 = true ↔
        notFiveOfNull.1.sql (fun _ _ => false) (recordOf notFiveOfNull.2 0) = .true) := by
  have htyped : notFiveOfNull.1.WellTyped (notFiveOfNull.2.map ColumnCalls.type) :=
    ⟨.int32, rfl, .inr (.inr ⟨rfl, 5, rfl, by decide, by decide⟩)⟩
  obtain ⟨bitmap, hbitmap, hrow⟩ := selects_sql_iff (n := 12) (by decide) (fun _ _ => false)
    (show ∀ c ∈ notFiveOfNull.2, c.length = 2 by simp [notFiveOfNull, ColumnCalls.length])
    htyped fun _ => []
  have hsettled : notFiveOfNull.1.NullsSettled (fun _ _ => false) (recordOf notFiveOfNull.2 0) :=
    Statement.NoNegatedNull.nullsSettled fun _ => .inl (by decide)
  exact ⟨bitmap, hbitmap, (hrow 0 (by decide)).mpr hsettled⟩

end HashJoin
