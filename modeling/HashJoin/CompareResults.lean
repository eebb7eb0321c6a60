import HashJoin.Lib.Sorting
import HashJoin.RunQuery
import HashJoin.TableCache

/-!
# Comparing results

The result of a query is compared with the one of DuckDB, either as DuckDB returns it or as
`DumpTable` has written it to a file before. The rows of both are sorted, and the threads of the
pool compare them one by one. Of DuckDB only the materialized result is modelled.
-/

namespace HashJoin

open Bytes

/-! ## Rows in order -/

/-- The position of the alternative that a variant holds. `std::monostate` is the last, so that a
sort puts NULL behind all values. -/
def Data.index : Data → Nat
  | .int32 _ => 0
  | .int64 _ => 1
  | .fp64 _ => 2
  | .varchar _ => 3
  | .null => 4

/-- `<` of variants. -/
def Data.less : Data → Data → Bool
  | .int32 v, .int32 w => Comparable.less v w
  | .int64 v, .int64 w => Comparable.less v w
  | .fp64 v, .fp64 w => Comparable.less (Fp64.mk v) (Fp64.mk w)
  | .varchar v, .varchar w => Comparable.less v w
  | v, w => v.index < w.index

/-- `==` of variants. -/
def Data.equal : Data → Data → Bool
  | .int32 v, .int32 w => Comparable.equal v w
  | .int64 v, .int64 w => Comparable.equal v w
  | .fp64 v, .fp64 w => Comparable.equal (Fp64.mk v) (Fp64.mk w)
  | .varchar v, .varchar w => Comparable.equal v w
  | v, w => v.index = w.index

def rowEqual (lhs rhs : List Data) : Bool :=
  lhs.length = rhs.length && (lhs.zip rhs).all fun v => v.1.equal v.2

/-- The order of the rows is that of their first different values. A NaN is not ordered, and what
`std::sort` does with it is undefined. -/
def sort (table : List (List Data)) : List (List Data) :=
  Sorting.sort (Sorting.lexLess Data.less) table

/-! ## Results of DuckDB -/

/-- The types of DuckDB, those without a `DataType` by their names. -/
inductive LogicalType where
  | integer
  | bigint
  | double
  | varchar
  | other (name : String)

namespace LogicalType

def toString : LogicalType → String
  | integer => "INTEGER"
  | bigint => "BIGINT"
  | double => "DOUBLE"
  | varchar => "VARCHAR"
  | other name => name

def unsupported (type : LogicalType) : Fault :=
  .runtimeError (type.toString ++ " in DuckDB is not supported")

def equal (lhs : LogicalType) (rhs : DataType) : Except Fault Bool :=
  match lhs with
  | integer => .ok (rhs = .int32)
  | bigint => .ok (rhs = .int64)
  | double => .ok (rhs = .fp64)
  | varchar => .ok (rhs = .varchar)
  | other name => .error (other name).unsupported

/-- The column type that `DumpTable` writes. -/
def columnType : LogicalType → Except Fault DataType
  | integer => .ok .int32
  | varchar => .ok .varchar
  | type => .error type.unsupported

end LogicalType

/-- A result of DuckDB: the values of a column that it has a `DataType` for are of that type. -/
structure MaterializedQueryResult where
  types : List LogicalType
  rows : List (List Data)
  wellTyped : ∀ row ∈ rows, List.Forall₂ (fun v (type : LogicalType) =>
    ∀ t, type.equal t = .ok true → v.HasType t) row types

/-- `DumpTable` of a result: the sorted rows in columns. -/
def DumpTable.ofResult (fresh : Nat → Nat → Page) (result : MaterializedQueryResult) :
    Except Fault ColumnarTable := do
  let types ← result.types.mapM LogicalType.columnType
  toColumnar fresh ⟨sort result.rows, types⟩

/-! ## The comparisons -/

section Compare

variable (n : Nat) (sched : List Nat)

/-- The byte that the task stores for a row. -/
def compareRow (results expected : List (List Data)) (i : Nat) :
    Except EvalFault (UInt8 → UInt8) :=
  match results[i]?, expected[i]? with
  | some result, some row => .ok fun _ => if rowEqual result row then 1 else 0
  | _, _ => .error .outOfRange

/-- The rows are compared by the pool, and all bytes that it stores have to be set. -/
def compareRows (results expected : List (List Data)) (numRows : Nat) : Except Fault Bool := do
  let booleans ← (FilterThreadPool.run n sched (byteTask (compareRow results expected)) numRows
    (List.replicate numRows 0)).mapError EvalFault.toFault
  .ok (booleans.all (· ≠ 0))

/-- The comparison with a result that was loaded from a file, where its rows are sorted. -/
def compareWithCache (expected results : ColumnarTable) : Except Fault Bool :=
  if expected.numRows ≠ results.numRows then .ok false
  else if expected.columns.length ≠ results.columns.length then .ok false
  else if (expected.columns.zip results.columns).any fun c => c.1.type ≠ c.2.type then .ok false
  else do
    let resultsTable ← fromColumnar results
    let expectedTable ← fromColumnar expected
    compareRows n sched (sort resultsTable.data) expectedTable.data results.numRows

def equalTypes : List LogicalType → List Column → Except Fault Bool
  | type :: types, column :: columns => do
    if ← type.equal column.type then equalTypes types columns
    else .ok false
  | _, _ => .ok true

/-- `FloatValue::Get` is of a `double` here, and it is a parameter. The other functions return the
value. -/
def getValue (floatValue : UInt64 → UInt64) : Data → Data
  | .fp64 bits => .fp64 (floatValue bits)
  | v => v

/-- The comparison with a result of DuckDB. -/
def compare (floatValue : UInt64 → UInt64) (duckdbResults : MaterializedQueryResult)
    (results : ColumnarTable) : Except Fault Bool :=
  if duckdbResults.rows.length ≠ results.numRows then .ok false
  else if duckdbResults.types.length ≠ results.columns.length then .ok false
  else do
    if ← equalTypes duckdbResults.types results.columns then
      let duckdbTable := duckdbResults.rows.map fun row => row.map (getValue floatValue)
      let resultTable ← fromColumnar results
      compareRows n sched (sort resultTable.data) (sort duckdbTable) results.numRows
    else .ok false

end Compare

/-! ## Rows without doubles -/

/-- The value is ordered, and `==` is equality for it. -/
def Data.NotDouble (v : Data) : Prop := ∀ bits, v ≠ .fp64 bits

theorem Data.less_orders : Sorting.Orders Data.less Data.NotDouble := by
  refine ⟨fun {a b} ha hb hab => ?_, fun {a b c} ha hb hc hab hbc => ?_,
    fun {a b} ha hb hab hba => ?_⟩
  · cases a <;> cases b <;> simp_all [Data.less, Data.index, Comparable.less, Data.NotDouble]
    · exact Int32.le_of_lt hab
    · exact Int64.le_of_lt hab
    · exact List.le_of_lt hab
  · cases a <;> cases b <;> cases c <;>
      simp_all [Data.less, Data.index, Comparable.less, Data.NotDouble]
    · exact Int32.lt_trans hab hbc
    · exact Int64.lt_trans hab hbc
    · exact List.lt_trans hab hbc
  · cases a <;> cases b <;> simp_all [Data.less, Data.index, Comparable.less, Data.NotDouble]
    · exact Int32.le_antisymm hba hab
    · exact Int64.le_antisymm hba hab
    · exact List.le_antisymm hba hab

theorem Data.equal_iff {v w : Data} (hv : v.NotDouble) : v.equal w = true ↔ v = w := by
  cases v <;> cases w <;> simp_all [Data.equal, Data.index, Comparable.equal, Data.NotDouble]

theorem rowEqual_iff {lhs rhs : List Data} (hlhs : ∀ v ∈ lhs, v.NotDouble) :
    rowEqual lhs rhs = true ↔ lhs = rhs := by
  unfold rowEqual
  rw [Bool.and_eq_true, decide_eq_true_eq, List.all_eq_true]
  constructor
  · rintro ⟨hlen, hall⟩
    refine List.forall₂_eq_eq_eq ▸ List.forall₂_iff_zip.mpr ⟨hlen, fun {a b} hab => ?_⟩
    exact (Data.equal_iff (hlhs a (List.of_mem_zip hab).1)).mp (hall _ hab)
  · rintro rfl
    refine ⟨rfl, fun v hv => ?_⟩
    have hall : List.Forall₂ (· = ·) lhs lhs := List.forall₂_eq_eq_eq ▸ rfl
    exact (Data.equal_iff (hlhs _ (List.of_mem_zip hv).1)).mpr
      ((List.forall₂_iff_zip.mp hall).2 hv)

/-- Whatever the threads do, they find whether the rows are the same. -/
theorem compareRows_eq {n : Nat} (hn : 0 < n) (sched : List Nat)
    {results expected : List (List Data)} {numRows : Nat} (hresults : results.length = numRows)
    (hexpected : expected.length = numRows)
    (hrows : ∀ row ∈ results, ∀ v ∈ row, v.NotDouble) :
    compareRows n sched results expected numRows = .ok (decide (results = expected)) := by
  have hrow : ∀ i < numRows, compareRow results expected i =
      .ok fun _ => if results[i]? = expected[i]? then 1 else 0 := by
    intro i hi
    have hr : results[i]? = some results[i] := List.getElem?_eq_getElem (by omega)
    have he : expected[i]? = some expected[i] := List.getElem?_eq_getElem (by omega)
    have heq : rowEqual results[i] expected[i] = true ↔ results[i] = expected[i] :=
      rowEqual_iff (hrows results[i] (List.getElem_mem _))
    unfold compareRow
    simp only [hr, he, Option.some.injEq]
    simp only [heq]
  unfold compareRows
  rw [FilterThreadPool.run_eq hn sched _ (fun _ _ _ hlast => byteTask_eq hrow hlast) (by simp),
    Except.mapError, ok_bind]
  congr 1
  rw [Bool.eq_iff_iff, List.all_eq_true, decide_eq_true_eq]
  constructor
  · intro hall
    apply List.ext_getElem?
    intro i
    by_cases hi : i < numRows
    · have hbyte := hall _ (List.mem_iff_getElem.mpr ⟨i, by simpa using hi, rfl⟩)
      by_contra hne
      simp [hi, hne] at hbyte
    · rw [List.getElem?_eq_none (by omega), List.getElem?_eq_none (by omega)]
  · rintro rfl byte hbyte
    obtain ⟨i, hi, rfl⟩ := List.mem_iff_getElem.mp hbyte
    have hi : i < numRows := by simpa using hi
    simp [hi]

/-! ## What `from_columnar` reads -/

theorem ReadState.emplace_invariant {P : Data → Prop} {st st' : ReadState} {value : Data}
    (hst : ∀ v ∈ st.cells, P v) (hvalue : P value) (h : st.emplace value = .ok st') :
    ∀ v ∈ st'.cells, P v := by
  unfold ReadState.emplace at h
  split at h
  · cases h
  · rw [← Except.ok.inj h]
    intro v hv
    rcases List.mem_or_eq_of_mem_set hv with hv | rfl
    · exact hst v hv
    · exact hvalue

/-- Reading rows keeps what holds of all cells and of the values that are read. -/
theorem readRows_invariant {σ : Type} {value : σ → Nat → Except Fault (Data × σ)}
    {bit : Nat → Bool} {P : Data → Prop} (hvalue : ∀ s k r, value s k = .ok r → P r.1)
    {remaining i dataIdx : Nat} {s : σ} {st st' : ReadState} (hst : ∀ v ∈ st.cells, P v)
    (h : readRows value bit remaining i dataIdx s st = .ok st') : ∀ v ∈ st'.cells, P v := by
  induction remaining generalizing i dataIdx s st with
  | zero => exact Except.ok.inj h ▸ hst
  | succ remaining ih =>
    unfold readRows at h
    split at h
    · obtain ⟨r, hr, h⟩ := bind_eq_ok.mp h
      obtain ⟨st₁, hst₁, h⟩ := bind_eq_ok.mp h
      exact ih (ReadState.emplace_invariant hst (hvalue s dataIdx r hr) hst₁) h
    · exact ih (show ∀ v ∈ st.skip.cells, P v from hst) h

theorem readFixed_invariant {T : Type} [Pod T] {dataBegin : Nat} (mk : T → Data) {p : Page}
    {P : Data → Prop} (hmk : ∀ x, P (mk x)) {st st' : ReadState} (hst : ∀ v ∈ st.cells, P v)
    (h : readFixed dataBegin mk p st = .ok st') : ∀ v ∈ st'.cells, P v := by
  refine readRows_invariant (fun s k r hr => ?_) hst h
  obtain ⟨x, -, hx⟩ := bind_eq_ok.mp hr
  rw [← Except.ok.inj hx]
  exact hmk x

theorem readVarchar_invariant {p : Page} {st st' : ReadState}
    (hst : ∀ v ∈ st.cells, v.HasType .varchar) (h : readVarchar p st = .ok st') :
    ∀ v ∈ st'.cells, v.HasType .varchar := by
  unfold readVarchar at h
  by_cases hfirst : p.u16 0 = 0xffff
  · rw [if_pos hfirst] at h
    obtain ⟨value, -, h⟩ := bind_eq_ok.mp h
    exact ReadState.emplace_invariant hst (show Data.HasType (.varchar value) .varchar from rfl) h
  rw [if_neg hfirst] at h
  by_cases hmore : p.u16 0 = 0xfffe
  · rw [if_pos hmore] at h
    obtain ⟨value, -, h⟩ := bind_eq_ok.mp h
    split at h
    · cases h
    · split at h
      · rw [← Except.ok.inj h]
        intro v hv
        rcases List.mem_or_eq_of_mem_set hv with hv | rfl
        · exact hst v hv
        · rfl
      · cases h
      · cases h
  · rw [if_neg hmore] at h
    refine readRows_invariant (fun s k r hr => ?_) hst h
    obtain ⟨offset, -, hr⟩ := bind_eq_ok.mp hr
    split at hr
    · cases hr
    · rw [← Except.ok.inj hr]
      rfl

/-- Whatever the pages hold, a column is read to values of its type. -/
theorem readColumn_hasType {numRows : Nat} {column : Column} {cells : List Data}
    (h : readColumn numRows column = .ok cells) : ∀ v ∈ cells, v.HasType column.type := by
  obtain ⟨st, hst, h⟩ := bind_eq_ok.mp h
  rw [← Except.ok.inj h]
  refine foldlM_invariant (P := fun st : ReadState => ∀ v ∈ st.cells, v.HasType column.type)
    (fun p _ st st' hst h => ?_) (fun v hv => ?_) hst
  · cases htype : column.type <;> rw [htype] at hst h
    · exact readFixed_invariant Data.int32 (P := (·.HasType .int32)) (fun _ => rfl) hst h
    · exact readFixed_invariant Data.int64 (P := (·.HasType .int64)) (fun _ => rfl) hst h
    · exact readFixed_invariant Data.fp64 (P := (·.HasType .fp64)) (fun _ => rfl) hst h
    · exact readVarchar_invariant hst h
  · rw [List.eq_of_mem_replicate hv]
    trivial

theorem wellTyped_of_fromColumnar {table : ColumnarTable} {t : Table}
    (h : fromColumnar table = .ok t) : t.WellTyped ∧ t.types = table.columns.map Column.type ∧
      t.data.length = table.numRows := by
  obtain ⟨columns, hcolumns, h⟩ := bind_eq_ok.mp h
  rw [← Except.ok.inj h]
  refine ⟨fun record hrecord => ?_, rfl, by simp⟩
  obtain ⟨i, -, rfl⟩ := List.mem_map.mp hrecord
  rw [List.forall₂_map_left_iff, List.forall₂_map_right_iff]
  refine (mapM_eq_ok_iff.mp hcolumns).flip.imp fun cells column hcells => ?_
  rw [List.getD_eq_getElem?_getD]
  cases hcell : cells[i]? with
  | none => trivial
  | some v => exact readColumn_hasType hcells v (List.mem_of_getElem? hcell)

/-! ## The dumped result -/

/-- A traversal that fails does so at one of its elements. -/
theorem mapM_eq_error {ε α β : Type} {f : α → Except ε β} {l : List α} {e : ε}
    (h : l.mapM f = .error e) : ∃ a ∈ l, f a = .error e := by
  induction l with
  | nil => cases h
  | cons a l ih =>
    rw [List.mapM_cons] at h
    cases ha : f a with
    | error e' =>
      rw [ha] at h
      exact ⟨a, by simp, ha.trans (congrArg Except.error (Except.error.inj h))⟩
    | ok b =>
      rw [ha, ok_bind] at h
      cases hl : l.mapM f with
      | error e' =>
        rw [hl] at h
        obtain ⟨a', ha', hf⟩ := ih (hl.trans (congrArg Except.error (Except.error.inj h)))
        exact ⟨a', List.mem_cons_of_mem _ ha', hf⟩
      | ok bs =>
        rw [hl] at h
        cases h

theorem LogicalType.equal_of_columnType {type : LogicalType} {t : DataType}
    (h : type.columnType = .ok t) (rhs : DataType) :
    type.equal rhs = .ok (decide (rhs = t)) ∧ t ≠ .fp64 := by
  cases type with
  | integer => exact Except.ok.inj h ▸ ⟨rfl, by decide⟩
  | varchar => exact Except.ok.inj h ▸ ⟨rfl, by decide⟩
  | bigint => cases h
  | double => cases h
  | other => cases h

theorem LogicalType.columnType_ok_iff {type : LogicalType} :
    (∃ t, type.columnType = .ok t) ↔ type = .integer ∨ type = .varchar := by
  cases type <;> simp [columnType]

theorem LogicalType.columnType_eq_error {type : LogicalType} {e : Fault}
    (h : type.columnType = .error e) : e = type.unsupported := by
  cases type with
  | integer | varchar => cases h
  | bigint | double | other => exact (Except.error.inj h).symm

theorem equalTypes_eq {logical : List LogicalType} {types : List DataType}
    (h : logical.mapM LogicalType.columnType = .ok types) {columns : List Column}
    (hlen : logical.length = columns.length) :
    equalTypes logical columns = .ok (decide (columns.map Column.type = types)) := by
  have hall := mapM_eq_ok_iff.mp h
  clear h
  induction hall generalizing columns with
  | nil =>
    cases columns with
    | nil => rfl
    | cons => cases hlen
  | @cons type t logical types htype _ ih =>
    cases columns with
    | nil => cases hlen
    | cons column columns =>
      unfold equalTypes
      rw [(LogicalType.equal_of_columnType htype _).1, ok_bind, ih (Nat.succ.inj hlen)]
      by_cases heq : column.type = t <;> simp [heq]

theorem MaterializedQueryResult.table_wellTyped {duck : MaterializedQueryResult}
    {types : List DataType} (h : duck.types.mapM LogicalType.columnType = .ok types) :
    Table.WellTyped ⟨sort duck.rows, types⟩ := by
  intro row hmem
  have hrow := duck.wellTyped row ((Sorting.sort_perm _ _).mem_iff.mp hmem)
  have hall := mapM_eq_ok_iff.mp h
  clear h hmem
  change List.Forall₂ Data.HasType row types
  generalize duck.types = logical at hrow hall
  induction hrow generalizing types with
  | nil =>
    cases hall
    exact .nil
  | cons hv _ ih =>
    cases hall with
    | cons htype hall =>
      refine .cons (hv _ ?_) (ih hall)
      rw [(LogicalType.equal_of_columnType htype _).1, decide_eq_true rfl]

/-- Rows with columns of the types that `DumpTable` writes have no doubles. -/
theorem Table.WellTyped.notDouble {t : Table} (h : t.WellTyped) {logical : List LogicalType}
    (htypes : logical.mapM LogicalType.columnType = .ok t.types) :
    ∀ row ∈ t.data, ∀ v ∈ row, v.NotDouble := by
  intro row hrow v hv bits
  rintro rfl
  obtain ⟨t, ht, htype⟩ := exists_of_forall₂ (h row hrow) hv
  obtain ⟨type, -, hcolumn⟩ := exists_of_forall₂ (mapM_eq_ok_iff.mp htypes).flip ht
  exact (LogicalType.equal_of_columnType hcolumn t).2 htype

/-- A table that fits the metadata is loaded from its file. -/
theorem DumpTable.load_dump {maxSize : Nat} (hmaxSize : maxSize < 2 ^ 64) {table : ColumnarTable}
    (hcols : table.columns.length ≤ 16) (hrows : table.numRows < 2 ^ 64)
    (hpages : ∀ c ∈ table.columns, c.pages.length ≤ maxSize) :
    ∃ cached, fromCache maxSize (dump table) = .ok cached ∧
      cached.view (dump table) = some table := by
  have hsize : ∀ c ∈ table.columns, c.pages.length < 2 ^ 64 :=
    fun c hc => (hpages c hc).trans_lt hmaxSize
  have hbytes := length_dump table
  have hcount := numCols_dump hcols
  have hfew : ∀ i < table.columns.length, TableCache.numPages (dump table) i ≤ maxSize := by
    intro i hi
    rw [numPages_dump hi hcols (hsize _ (List.getElem_mem hi))]
    exact hpages _ (List.getElem_mem hi)
  have hview := mapM_view le_rfl hcols hsize
  rw [List.take_length] at hview
  refine ⟨_, TableCache.fromCache_eq (by omega) (by omega) (by rwa [hcount]), ?_⟩
  unfold CachedTable.view
  rw [hcount, hview]
  exact congrArg (fun n => some (ColumnarTable.mk n table.columns)) (numRows_dump hrows)

/-- What `DumpTable` makes of a result has its types and its sorted rows. -/
theorem DumpTable.read_ofResult {fresh : Nat → Nat → Page} {duck : MaterializedQueryResult}
    {table : ColumnarTable} (htable : ofResult fresh duck = .ok table) :
    ∃ types, duck.types.mapM LogicalType.columnType = .ok types ∧
      table.columns.length = duck.types.length ∧ table.numRows = duck.rows.length ∧
      fromColumnar table = .ok ⟨sort duck.rows, types⟩ := by
  obtain ⟨types, htypes, hto⟩ := bind_eq_ok.mp htable
  have hwell := duck.table_wellTyped htypes
  obtain ⟨hnumRows, hlen, -⟩ := columns_of_toColumnar hto
  refine ⟨types, htypes, hlen.trans (mapM_eq_ok_iff.mp htypes).length_eq.symm,
    hnumRows.trans (Sorting.length_sort _ _), ?_⟩
  obtain ⟨columns, hcolumns, hall⟩ := toColumnar_ok fresh hwell
  obtain rfl := Except.ok.inj (hcolumns.symm.trans hto)
  obtain ⟨hread, hreadTypes⟩ := mapM_readColumn hall
  unfold fromColumnar
  simp only [hread, ok_bind, hwell.rows_of_columns, hreadTypes, List.zipIdx_map_fst]

/-! ## The comparisons agree -/

/-- What both comparisons find for a result whose columns `DumpTable` writes. -/
def verdict (duck : MaterializedQueryResult) (types : List DataType) (results : ColumnarTable) :
    Except Fault Bool :=
  if results.numRows = duck.rows.length ∧ results.columns.map Column.type = types then do
    let t ← fromColumnar results
    .ok (decide (sort t.data = sort duck.rows))
  else .ok false

theorem any_type_ne_iff {lhs rhs : List Column} (hlen : lhs.length = rhs.length) :
    (lhs.zip rhs).any (fun c => c.1.type ≠ c.2.type) = true ↔
      lhs.map Column.type ≠ rhs.map Column.type := by
  have heq : lhs.map Column.type = rhs.map Column.type ↔
      List.Forall₂ (fun c d => c.type = d.type) lhs rhs := by
    rw [← List.forall₂_eq_eq_eq, List.forall₂_map_left_iff, List.forall₂_map_right_iff]
  rw [Ne, heq, List.forall₂_iff_zip, List.any_eq_true]
  constructor
  · rintro ⟨c, hc, hne⟩ ⟨-, hall⟩
    exact of_decide_eq_true hne (hall hc)
  · intro hne
    by_contra hnone
    refine hne ⟨hlen, fun {c d} hcd => ?_⟩
    by_contra htype
    exact hnone ⟨(c, d), hcd, decide_eq_true htype⟩

section Agree

variable {n : Nat} (hn : 0 < n) (sched : List Nat) {duck : MaterializedQueryResult}
  {types : List DataType} (htypes : duck.types.mapM LogicalType.columnType = .ok types)
include hn htypes

theorem compareRows_verdict {results : ColumnarTable} (hrows : results.numRows = duck.rows.length)
    (hcolumns : results.columns.map Column.type = types) {t : Table}
    (ht : fromColumnar results = .ok t) :
    compareRows n sched (sort t.data) (sort duck.rows) results.numRows =
      .ok (decide (sort t.data = sort duck.rows)) := by
  obtain ⟨hwell, htype, hlen⟩ := wellTyped_of_fromColumnar ht
  refine compareRows_eq hn sched ((Sorting.length_sort _ _).trans hlen)
    ((Sorting.length_sort _ _).trans hrows.symm) fun row hrow => ?_
  exact hwell.notDouble (htypes.trans (by rw [htype, hcolumns])) row
    ((Sorting.sort_perm _ _).mem_iff.mp hrow)

theorem compareWithCache_verdict {expected : ColumnarTable}
    (hexpected : fromColumnar expected = .ok ⟨sort duck.rows, types⟩) (results : ColumnarTable) :
    compareWithCache n sched expected results = verdict duck types results := by
  obtain ⟨-, htype, hlen⟩ := wellTyped_of_fromColumnar hexpected
  have hlen : expected.numRows = duck.rows.length := hlen.symm.trans (Sorting.length_sort _ _)
  have htype : types = expected.columns.map Column.type := htype
  unfold compareWithCache verdict
  rw [hlen]
  by_cases hrows : results.numRows = duck.rows.length
  · rw [if_neg (not_not.mpr hrows.symm)]
    by_cases hcolumns : results.columns.map Column.type = types
    · have hcount : expected.columns.length = results.columns.length := by
        simpa using congrArg List.length (htype.symm.trans hcolumns.symm)
      rw [if_neg (not_not.mpr hcount), if_neg (fun hany => (any_type_ne_iff hcount).mp hany
        (htype.symm.trans hcolumns.symm)), if_pos ⟨hrows, hcolumns⟩]
      cases ht : fromColumnar results with
      | error e => rfl
      | ok t =>
        rw [ok_bind, ok_bind, hexpected, ok_bind]
        exact compareRows_verdict hn sched htypes hrows hcolumns ht
    · have hno : ¬ (results.numRows = duck.rows.length ∧
          results.columns.map Column.type = types) := fun h => hcolumns h.2
      rw [if_neg hno]
      by_cases hcount : expected.columns.length = results.columns.length
      · rw [if_neg (not_not.mpr hcount), if_pos ((any_type_ne_iff hcount).mpr fun heq =>
          hcolumns (heq.symm.trans htype.symm))]
      · rw [if_pos hcount]
  · rw [if_pos (Ne.symm hrows), if_neg (fun h => hrows h.1)]

theorem compare_verdict (floatValue : UInt64 → UInt64) (results : ColumnarTable) :
    compare n sched floatValue duck results = verdict duck types results := by
  have hcount := (mapM_eq_ok_iff.mp htypes).length_eq
  have hget : duck.rows.map (fun row => row.map (getValue floatValue)) = duck.rows := by
    have hdouble := (duck.table_wellTyped htypes).notDouble htypes
    rw [List.map_congr_left (g := id) fun row hrow => ?_, List.map_id]
    rw [List.map_congr_left (g := id) fun v hv => ?_, List.map_id, id]
    have hv := hdouble row ((Sorting.sort_perm _ _).mem_iff.mpr hrow) v hv
    cases v with
    | fp64 bits => cases hv bits rfl
    | null | int32 _ | int64 _ | varchar _ => rfl
  unfold compare verdict
  by_cases hrows : results.numRows = duck.rows.length
  · rw [if_neg (not_not.mpr hrows.symm)]
    by_cases hlen : duck.types.length = results.columns.length
    · rw [if_neg (not_not.mpr hlen), equalTypes_eq htypes hlen, ok_bind]
      by_cases hcolumns : results.columns.map Column.type = types
      · rw [if_pos (decide_eq_true hcolumns), if_pos ⟨hrows, hcolumns⟩, hget]
        cases ht : fromColumnar results with
        | error e => rfl
        | ok t => exact compareRows_verdict hn sched htypes hrows hcolumns ht
      · have hno : ¬ (results.numRows = duck.rows.length ∧
            results.columns.map Column.type = types) := fun h => hcolumns h.2
        rw [if_neg (by simpa using hcolumns), if_neg hno]
    · have hno : ¬ (results.numRows = duck.rows.length ∧
          results.columns.map Column.type = types) := fun h =>
        hlen (by simpa [hcount] using congrArg List.length h.2.symm)
      rw [if_pos hlen, if_neg hno]
  · rw [if_pos (Ne.symm hrows), if_neg (fun h => hrows h.1)]

end Agree

theorem verdict_iff {duck : MaterializedQueryResult} {types : List DataType}
    (htypes : duck.types.mapM LogicalType.columnType = .ok types) {results : ColumnarTable}
    {t : Table} (ht : fromColumnar results = .ok t) :
    ∃ correct, verdict duck types results = .ok correct ∧
      (correct = true ↔ duck.types.mapM LogicalType.columnType = .ok t.types ∧
        t.data.Perm duck.rows) := by
  obtain ⟨hwell, htype, hlen⟩ := wellTyped_of_fromColumnar ht
  unfold verdict
  by_cases hsame : results.numRows = duck.rows.length ∧ results.columns.map Column.type = types
  · have htypes : duck.types.mapM LogicalType.columnType = .ok t.types := by
      rw [htypes, htype, hsame.2]
    have hduck : ∀ row ∈ duck.rows, ∀ v ∈ row, v.NotDouble := fun row hrow =>
      (duck.table_wellTyped htypes).notDouble htypes row
        ((Sorting.sort_perm _ _).mem_iff.mpr hrow)
    rw [if_pos hsame, ht, ok_bind]
    refine ⟨_, rfl, ?_⟩
    rw [decide_eq_true_eq, and_iff_right htypes]
    exact Data.less_orders.lex.sort_eq_iff (hwell.notDouble htypes) hduck
  · rw [if_neg hsame]
    refine ⟨false, rfl, ?_⟩
    rw [htypes, Except.ok.injEq]
    constructor
    · exact nofun
    · rintro ⟨rfl, hperm⟩
      exact absurd ⟨hlen.symm.trans hperm.length_eq, htype.symm⟩ hsame

/-- `DumpTable` throws at the first column that is neither `INTEGER` nor `VARCHAR`. -/
theorem DumpTable.ofResult_cases (fresh : Nat → Nat → Page) (duck : MaterializedQueryResult) :
    (∀ type ∈ duck.types, type = .integer ∨ type = .varchar) ∧
        (∃ table, ofResult fresh duck = .ok table) ∨
      ¬ (∀ type ∈ duck.types, type = .integer ∨ type = .varchar) ∧
        ∃ type ∈ duck.types, ofResult fresh duck = .error type.unsupported := by
  cases htypes : duck.types.mapM LogicalType.columnType with
  | ok types =>
    refine .inl ⟨fun type hmem => ?_, ?_⟩
    · obtain ⟨t, -, ht⟩ := exists_of_forall₂ (mapM_eq_ok_iff.mp htypes) hmem
      exact LogicalType.columnType_ok_iff.mp ⟨t, ht⟩
    · obtain ⟨columns, htable, -⟩ := toColumnar_ok fresh (duck.table_wellTyped htypes)
      refine ⟨⟨(sort duck.rows).length, columns⟩, ?_⟩
      unfold ofResult
      rw [htypes, ok_bind, htable]
  | error e =>
    obtain ⟨type, hmem, htype⟩ := mapM_eq_error htypes
    refine .inr ⟨fun hall => ?_, type, hmem, ?_⟩
    · obtain ⟨t, ht⟩ := LogicalType.columnType_ok_iff.mpr (hall type hmem)
      cases htype.symm.trans ht
    · rw [← LogicalType.columnType_eq_error htype]
      simp only [ofResult, htypes]
      rfl

/-- A result whose columns are `INTEGER` and `VARCHAR`, and no other, is dumped. Every result is
then compared with the dumped one the way it is compared with the result itself, whatever the
threads do: if it can be read, it is found correct exactly when it has the types of the columns and
the same rows, in any order. -/
theorem compareWithCache_ofResult {n : Nat} (hn : 0 < n) {maxSize : Nat}
    (hmaxSize : maxSize < 2 ^ 64) (floatValue : UInt64 → UInt64) (fresh : Nat → Nat → Page)
    (duck : MaterializedQueryResult) (hcols : duck.types.length ≤ 16)
    (hrows : duck.rows.length < 2 ^ 64) :
    ((∀ type ∈ duck.types, type = .integer ∨ type = .varchar) →
      ∃ table, DumpTable.ofResult fresh duck = .ok table ∧
        ((∀ c ∈ table.columns, c.pages.length ≤ maxSize) →
          ∃ cached expected, fromCache maxSize (DumpTable.dump table) = .ok cached ∧
            cached.view (DumpTable.dump table) = some expected ∧
            ∀ sched sched' results,
              compareWithCache n sched expected results =
                  compare n sched' floatValue duck results ∧
              ∀ t, fromColumnar results = .ok t → ∃ correct,
                compareWithCache n sched expected results = .ok correct ∧
                  (correct = true ↔ duck.types.mapM LogicalType.columnType = .ok t.types ∧
                    t.data.Perm duck.rows))) ∧
    (¬ (∀ type ∈ duck.types, type = .integer ∨ type = .varchar) →
      ∃ type ∈ duck.types, DumpTable.ofResult fresh duck = .error type.unsupported) := by
  rcases DumpTable.ofResult_cases fresh duck with ⟨hall, table, htable⟩ | ⟨hsome, hthrown⟩
  · refine ⟨fun _ => ⟨table, htable, fun hpages => ?_⟩, fun h => absurd hall h⟩
    obtain ⟨types, htypes, hlen, hnum, hread⟩ := DumpTable.read_ofResult htable
    obtain ⟨cached, hcached, hview⟩ :=
      DumpTable.load_dump hmaxSize (hlen ▸ hcols) (hnum ▸ hrows) hpages
    refine ⟨cached, table, hcached, hview, fun sched sched' results => ?_⟩
    have hcache := compareWithCache_verdict hn sched htypes hread results
    refine ⟨hcache.trans (compare_verdict hn sched' htypes floatValue results).symm,
      fun t ht => ?_⟩
    rw [hcache]
    exact verdict_iff htypes ht
  · exact ⟨fun h => absurd h hsome, fun _ => hthrown⟩

theorem nullAndFive_wellTyped : ∀ row ∈ [[Data.null], [Data.int32 5]],
    List.Forall₂ (fun v (type : LogicalType) => ∀ t, type.equal t = .ok true → v.HasType t)
      row [.integer] := by
  intro row hrow
  rcases List.mem_pair.mp hrow with rfl | rfl
  · exact .cons (fun _ _ => trivial) .nil
  · exact .cons (fun t ht => show t = .int32 from of_decide_eq_true (Except.ok.inj ht)) .nil

/-- DuckDB returns the rows NULL and 5. -/
def nullAndFive : MaterializedQueryResult :=
  ⟨[.integer], [[.null], [.int32 5]], nullAndFive_wellTyped⟩

/-- They are dumped with NULL behind 5, and the result has them the other way around. -/
theorem compareWithCache_ofResult_nullAndFive : ∃ table cached expected results,
    DumpTable.ofResult (fun _ _ => Buf.zero 8192) nullAndFive = .ok table ∧
      fromColumnar table = .ok ⟨[[.int32 5], [.null]], [.int32]⟩ ∧
      fromCache 1000 (DumpTable.dump table) = .ok cached ∧
      cached.view (DumpTable.dump table) = some expected ∧
      fromColumnar results = .ok ⟨[[.null], [.int32 5]], [.int32]⟩ ∧
      compareWithCache 2 [] expected results = .ok true := by
  have hsort : sort nullAndFive.rows = [[.int32 5], [.null]] :=
    ((Data.less_orders.lex.sort_eq_iff (by simp [Data.NotDouble])
      (by simp [Data.NotDouble])).mpr (.swap _ _ _)).trans
      (List.mergeSort_of_pairwise (by decide))
  have htypes : ∀ type ∈ nullAndFive.types, type = .integer ∨ type = .varchar := by
    simp [nullAndFive]
  obtain ⟨⟨table, htable, hloaded⟩, -⟩ := compareWithCache_ofResult (show 0 < 2 by decide)
    (show 1000 < 2 ^ 64 by decide) id (fun _ _ => Buf.zero 8192) nullAndFive (by decide)
    (by decide) |>.imp_left (· htypes)
  obtain ⟨page, hpage⟩ : ∃ page, toColumnar (fun _ _ => Buf.zero 8192)
      ⟨[[.int32 5], [.null]], [.int32]⟩ = .ok ⟨2, [⟨.int32, [page]⟩]⟩ := ⟨_, rfl⟩
  have hone : DumpTable.ofResult (fun _ _ => Buf.zero 8192) nullAndFive =
      .ok ⟨2, [⟨.int32, [page]⟩]⟩ := by
    rw [← hpage, ← hsort]
    rfl
  obtain rfl := Except.ok.inj (hone.symm.trans htable)
  have hwell : Table.WellTyped ⟨[[.null], [.int32 5]], [.int32]⟩ := by
    simp [Table.WellTyped, Data.HasType]
  obtain ⟨columns, -, hall⟩ := toColumnar_ok (fun _ _ => Buf.zero 8192) hwell
  obtain ⟨hread, hreadTypes⟩ := mapM_readColumn hall
  have hresults : fromColumnar ⟨2, columns⟩ = .ok ⟨[[.null], [.int32 5]], [.int32]⟩ := by
    have hrows := hwell.rows_of_columns
    unfold fromColumnar
    simp only [List.length_cons, List.length_nil] at hread hrows
    simp only [hread, ok_bind, hreadTypes, hrows]
    rfl
  obtain ⟨types, hcolumns, -, -, hdumped⟩ := DumpTable.read_ofResult hone
  obtain rfl : [.int32] = types := Except.ok.inj hcolumns
  rw [hsort] at hdumped
  obtain ⟨cached, expected, hcached, hview, hcompare⟩ := hloaded (by simp)
  obtain ⟨correct, hcorrect, hiff⟩ := (hcompare [] [] ⟨2, columns⟩).2 _ hresults
  obtain rfl := hiff.mpr ⟨rfl, .refl _⟩
  exact ⟨_, cached, expected, _, hone, hdumped, hcached, hview, hresults, hcorrect⟩

/-! ## The verdict of `run` -/

namespace LogicalType

/-- `compare` throws at a type that it has no `DataType` for. -/
def Known (type : LogicalType) : Prop := ∀ name, type ≠ .other name

/-- The type of a column of the result of DuckDB is that of the column. -/
def IsType (type : LogicalType) (t : DataType) : Prop := type.equal t = .ok true

theorem Known.equal {type : LogicalType} (h : type.Known) (t : DataType) :
    ∃ same, type.equal t = .ok same := by
  cases type with
  | other name => exact absurd rfl (h name)
  | integer | bigint | double | varchar => exact ⟨_, rfl⟩

theorem IsType.columnType {type : LogicalType} {t : DataType} (h : type.IsType t)
    (ht : t = .int32 ∨ t = .varchar) : type.columnType = .ok t := by
  unfold IsType at h
  rcases ht with rfl | rfl <;> cases type <;> simp_all [equal, LogicalType.columnType]

end LogicalType

theorem equalTypes_known {logical : List LogicalType} (hknown : ∀ type ∈ logical, type.Known)
    {columns : List Column} (hlen : logical.length = columns.length) :
    ∃ same, equalTypes logical columns = .ok same ∧
      (same = true ↔ List.Forall₂ LogicalType.IsType logical (columns.map Column.type)) := by
  induction logical generalizing columns with
  | nil =>
    cases columns with
    | nil => exact ⟨true, rfl, by simp⟩
    | cons => cases hlen
  | cons type logical ih =>
    cases columns with
    | nil => cases hlen
    | cons column columns =>
      rw [List.forall_mem_cons] at hknown
      obtain ⟨first, hfirst⟩ := hknown.1.equal column.type
      obtain ⟨same, hsame, hiff⟩ := ih hknown.2 (Nat.succ.inj hlen)
      rw [List.map_cons, List.forall₂_cons, ← hiff]
      unfold equalTypes LogicalType.IsType
      rw [hfirst, ok_bind, hsame]
      cases first with
      | true => exact ⟨same, by simp, by simp⟩
      | false => exact ⟨false, by simp, by simp⟩

theorem columnTypes_iff {logical : List LogicalType} {types : List DataType}
    (htypes : ∀ type ∈ types, type = .int32 ∨ type = .varchar) :
    logical.mapM LogicalType.columnType = .ok types ↔
      List.Forall₂ LogicalType.IsType logical types := by
  rw [mapM_eq_ok_iff]
  induction logical generalizing types with
  | nil => simp
  | cons type logical ih =>
    cases types with
    | nil => simp
    | cons t types =>
      rw [List.forall_mem_cons] at htypes
      rw [List.forall₂_cons, List.forall₂_cons, ih htypes.2]
      refine and_congr_left fun _ => ⟨fun h => ?_, fun h => h.columnType htypes.1⟩
      exact (LogicalType.equal_of_columnType h t).1.trans (congrArg Except.ok (decide_eq_true rfl))

/-- A result of `INT32` and `VARCHAR` columns is compared with any result of DuckDB of types that
`compare` knows: it is found correct exactly when the types are the same and so are the rows. -/
theorem compare_known {n : Nat} (hn : 0 < n) (sched : List Nat) (floatValue : UInt64 → UInt64)
    {duck : MaterializedQueryResult} (hknown : ∀ type ∈ duck.types, type.Known)
    {results : ColumnarTable} {t : Table} (ht : fromColumnar results = .ok t)
    (htypes : ∀ type ∈ t.types, type = .int32 ∨ type = .varchar) :
    ∃ correct, compare n sched floatValue duck results = .ok correct ∧
      (correct = true ↔ List.Forall₂ LogicalType.IsType duck.types t.types ∧
        t.data.Perm duck.rows) := by
  obtain ⟨-, htype, hlen⟩ := wellTyped_of_fromColumnar ht
  by_cases hsame : List.Forall₂ LogicalType.IsType duck.types t.types
  · have hcolumns := (columnTypes_iff htypes).mpr hsame
    obtain ⟨correct, hcorrect, hiff⟩ := verdict_iff hcolumns ht
    refine ⟨correct, (compare_verdict hn sched hcolumns floatValue results).trans hcorrect,
      hiff.trans (and_congr_left fun _ => ?_)⟩
    exact iff_of_true hcolumns hsame
  · refine ⟨false, ?_, by simp [hsame]⟩
    unfold compare
    by_cases hrows : duck.rows.length = results.numRows
    · rw [if_neg (not_not.mpr hrows)]
      by_cases hcount : duck.types.length = results.columns.length
      · obtain ⟨same, hequal, hiff⟩ := equalTypes_known hknown hcount
        rw [← htype] at hiff
        obtain rfl : same = false := by
          rw [← Bool.not_eq_true, hiff]
          exact hsame
        rw [if_neg (not_not.mpr hcount), hequal, ok_bind]
        rfl
      · rw [if_pos hcount]
    · rw [if_pos hrows]

/-- The tables of the schema have no other columns. -/
theorem Scope.columnType_cases {scope : Scope} {i : Nat} {type : DataType}
    (h : scope.columnType i = some type) : type = .int32 ∨ type = .varchar := by
  obtain ⟨⟨entity, column⟩, -, h⟩ := Option.bind_eq_some_iff.mp h
  obtain ⟨attributes, hattributes, h⟩ := Option.bind_eq_some_iff.mp h
  obtain ⟨attr, hattr, h⟩ := Option.bind_eq_some_iff.mp h
  exact Option.some.inj h ▸ attributesMap_type hattributes attr (List.mem_of_find?_eq_some hattr)

/-- The result of DuckDB is the answer of a query: its columns have the types of the selected ones,
and its rows are those of the answer, in any order. -/
structure MaterializedQueryResult.Answers (duck : MaterializedQueryResult) (query : Query)
    (sql : ParsedSQL) (columnToTables : String → Option (List String))
    (likeMatch : List UInt8 → List UInt8 → Bool) (base : String → List (List Data)) : Prop where
  types : List.Forall₂ (fun attr (type : LogicalType) => ∃ t,
    sql.scope.columnType (sql.scope.number attr.1 attr.2) = some t ∧ type.IsType t)
    sql.outputAttrs duck.types
  rows : duck.rows.Perm (query.answer sql.scope columnToTables likeMatch base)

section Answered

variable {query : Query} {sql : ParsedSQL} {columnToTables : String → Option (List String)}
  {likeMatch : List UInt8 → List UInt8 → Bool} {base : String → List (List Data)}
  {table : ColumnarTable} {result : Table}
  (h : query.Answered sql columnToTables likeMatch base table result)
include h

theorem Query.Answered.result_types : ∀ type ∈ result.types, type = .int32 ∨ type = .varchar := by
  intro type hmem
  obtain ⟨attr, -, htype⟩ := exists_of_forall₂ h.types.flip hmem
  exact Scope.columnType_cases htype

theorem Query.Answered.answers_iff (duck : MaterializedQueryResult) :
    duck.Answers query sql columnToTables likeMatch base ↔
      List.Forall₂ LogicalType.IsType duck.types result.types ∧ result.data.Perm duck.rows := by
  have htypes : List.Forall₂ (fun attr (type : LogicalType) => ∃ t,
      sql.scope.columnType (sql.scope.number attr.1 attr.2) = some t ∧ type.IsType t)
      sql.outputAttrs duck.types ↔ List.Forall₂ LogicalType.IsType duck.types result.types := by
    have hresult := h.types
    generalize sql.outputAttrs = attrs, duck.types = logical, result.types = types at hresult ⊢
    induction hresult generalizing logical with
    | nil => simp
    | cons htype _ ih =>
      cases logical with
      | nil => simp
      | cons type logical => simp [ih, htype]
  constructor
  · rintro ⟨hsame, hperm⟩
    exact ⟨htypes.mp hsame, h.rows.trans hperm.symm⟩
  · rintro ⟨hsame, hperm⟩
    exact ⟨htypes.mpr hsame, hperm.symm.trans h.rows⟩

end Answered

/-- Where DuckDB runs beside the program, a query that is answered is found correct exactly when the
result of DuckDB has columns of the types of the selected ones and the rows of the answer. -/
theorem QueryCall.run_correct_iff {n : Nat} (hn : 0 < n) {numThreads : Nat} (hT : 0 < numThreads)
    (likeMatch : List UInt8 → List UInt8 → Bool) (stod : Stod)
    (files : String → Option (List (List UInt8))) (columnToTables : String → Option (List String))
    (before : List (QueryCall × RunEnv)) {state : RunState}
    (hbefore : runs n likeMatch stod files numThreads columnToTables before {} = .ok state)
    (call : QueryCall) (env : RunEnv) {sql : ParsedSQL} {ret : Pipeline} {root : Nat}
    (hparse : parseSQL columnToTables env.parse call.query = .ok sql)
    (hplan : loadJoinPipeline planOnly sql env.order call.plan () = .ok ((ret, root), ()))
    (honce : (call.plan.entities sql.scope).Perm sql.scope.entities)
    (hans : sql.Answerable call.query) {base : String → List (List Data)}
    (hfiles : ∀ entity ∈ sql.scope.entities, TableFile stod files entity.table (base entity.table))
    (hsize : ret.BuildSidesFit (ret.keptTables likeMatch base)) (sched : List Nat)
    (floatValue : UInt64 → UInt64) {duck : MaterializedQueryResult}
    (hknown : ∀ type ∈ duck.types, type.Known) :
    ∃ inputs caches, loadJoinPipeline (csvLoader n likeMatch stod files env.load) sql env.order
        call.plan ([], state.caches) = .ok ((ret, root), inputs, caches) ∧
      (Plan.StringsFound ⟨ret.nodes, inputs, root⟩ (ret.keptTables likeMatch base) →
        ∃ results state' correct,
          call.run n likeMatch stod files numThreads columnToTables env state =
            .ok (results, state') ∧
          compare n sched floatValue duck results = .ok correct ∧
          (correct = true ↔ duck.Answers call.query sql columnToTables likeMatch base)) := by
  obtain ⟨inputs, caches, hload, hrun⟩ := run_answered hn hT likeMatch stod files columnToTables
    before hbefore call env hparse hplan honce hans hfiles hsize
  refine ⟨inputs, caches, hload, fun hstrings => ?_⟩
  obtain ⟨results, state', result, hresults, hanswered⟩ := hrun hstrings
  obtain ⟨correct, hcorrect, hiff⟩ :=
    compare_known hn sched floatValue hknown hanswered.decode hanswered.result_types
  exact ⟨results, state', correct, hresults, hcorrect, hiff.trans (hanswered.answers_iff duck).symm⟩

theorem keywordOne_wellTyped : ∀ row ∈ [[Data.int32 1]],
    List.Forall₂ (fun v (type : LogicalType) => ∀ t, type.equal t = .ok true → v.HasType t)
      row [.integer] := by
  intro row hrow
  obtain rfl := List.mem_singleton.mp hrow
  exact .cons (fun t ht => show t = .int32 from of_decide_eq_true (Except.ok.inj ht)) .nil

/-- DuckDB returns the id of the keyword that is linked. -/
def keywordOne : MaterializedQueryResult := ⟨[.integer], [[.int32 1]], keywordOne_wellTyped⟩

theorem LinkedKeywordPlan.keywordOne_answers {sql : ParsedSQL} {ret : Pipeline} {root : Nat}
    (h : LinkedKeywordPlan sql ret root) :
    keywordOne.Answers linkedKeyword sql (fun _ => none) (fun _ _ => false) linkRows := by
  constructor
  · have hselected : List.Forall₂ (fun attr type =>
        sql.scope.columnType (sql.scope.number attr.1 attr.2) = type) sql.outputAttrs
        [some .int32] := by
      rw [← h.selected, List.forall₂_map_right_iff]
      exact List.forall₂_same.mpr fun _ _ => rfl
    obtain ⟨attr, rest, htype, hrest, hattrs⟩ := List.forall₂_cons_right_iff.mp hselected
    rw [hattrs, List.forall₂_nil_right_iff.mp hrest]
    exact .cons ⟨.int32, htype, rfl⟩ .nil
  · rw [h.answer]
    exact .refl _

theorem QueryCall.run_correct_iff_linkedKeyword :
    let call : QueryCall := ⟨linkedKeyword, linkKeywordPlan⟩
    let env := linkEnv ⟨⟨4096, by decide, fun _ => ⟨0, 0⟩, [], []⟩, [2, 0, 1]⟩
    ∃ results state',
      call.run 2 (fun _ _ => false) (fun _ => none) linkFiles 3 (fun _ => none) env {} =
        .ok (results, state') ∧
      compare 2 [] id keywordOne results = .ok true := by
  intro call env
  obtain ⟨sql, ret, root, h⟩ := exists_linkedKeywordPlan
  have hknown : ∀ type ∈ keywordOne.types, type.Known := by
    simp [keywordOne, LogicalType.Known]
  have hbefore : runs 2 (fun _ _ => false) (fun _ => none) linkFiles 3 (fun _ => none) [] {} =
      .ok {} := rfl
  obtain ⟨inputs, caches, -, hrun⟩ := QueryCall.run_correct_iff (show 0 < 2 by decide)
    (show 0 < 3 by decide) (fun _ _ => false) (fun _ => none) linkFiles (fun _ => none) []
    hbefore call env h.parse h.plan h.once (linkedKeyword_answerable h.parse)
    (linkedKeyword_files h.entities) h.sidesFit [] id hknown
  obtain ⟨results, state', correct, hresults, hcorrect, hiff⟩ :=
    hrun (linkNodes_strings h.nodes inputs root _)
  obtain rfl := hiff.mpr h.keywordOne_answers
  exact ⟨results, state', hresults, hcorrect⟩

end HashJoin
