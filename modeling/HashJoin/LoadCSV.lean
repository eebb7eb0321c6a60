import HashJoin.CSVTable
import HashJoin.FromClause

/-!
# Loading filtered tables

`Table::from_csv` as the pipeline calls it: with the filter of the table, for files whose columns
may be in a cache. The columns of a file are kept under its path, and so is the table of a call
without a filter, of which later calls get copies.
-/

namespace HashJoin

open Bytes Interleave

/-! ## `from_csv` -/

/-- How an evaluation that does not return ends `from_csv`. `unreachable()` and the assertion on
the sizes of two bitmaps are not exceptions. -/
def EvalFault.toFault : EvalFault → Fault
  | .badVariantAccess => .runtimeError "std::get: wrong index for variant"
  | .outOfRange | .unreachable | .assertion => .outOfRange

/-- What `from_csv` gets for a path: the types of the attributes, whether there is a header, and
what `fread` delivers of the file, if it can be opened. -/
structure CSVSource where
  attributes : List DataType
  header : Bool := false
  file : Option (List (List UInt8))

/-- The branch of `from_csv` that reads the file. -/
def CSVSource.read (stod : Stod) (path : String) (source : CSVSource) : Except Fault InnerTable :=
  match source.file with
  | none => .error (.runtimeError ("Failed to open file: " ++ path))
  | some buffers =>
    let parser : CSVParser := { escape := backslash }
    let r := CSVParser.andThen (parser.feed buffers) CSVParser.finish
    do
      let tableParser ← r.2.fields.foldlM (onField stod source.attributes source.header)
        (.start source.attributes)
      if r.1 = .ok then .ok tableParser.fullTable
      else .error (.runtimeError "CSV parse error")

/-- What is outside the program during a call: the order of the filter threads at each node of the
filter and in the conversion, the contents of new pages, and what `ret_rows` holds before it is
stored. -/
structure LoadEnv where
  evalSched : List Bool → List Nat
  sched : List Nat
  fresh : Nat → Nat → Page
  retRows : Nat

/-- `copy`, to new pages. -/
def copy (fresh : Nat → Nat → Page) (value : ColumnarTable) : ColumnarTable :=
  { numRows := value.numRows
    columns := value.columns.zipIdx.map fun (column, i) => { column with
      pages := column.pages.zipIdx.map fun (page, k) => (fresh i k).memcpy 0 (page.slice 0 8192) } }

/-- `table_cache` and `result_cache`. -/
structure Caches where
  tables : String → Option InnerTable := fun _ => none
  results : String → Option ColumnarTable := fun _ => none

section Load

variable (n : Nat) (likeMatch : List UInt8 → List UInt8 → Bool) (stod : Stod)

/-- `results`: one bit per row. -/
def selectResults (sched : List Bool → List Nat) (table : InnerTable) :
    Option Statement → Except Fault (List UInt8)
  | some filter => (filter.evalTable n likeMatch table.columns sched).mapError EvalFault.toFault
  | none => .ok (List.replicate ((table.rows + 7) / 8) 0xff)

/-- The end of `from_csv`, on the columns of the file. -/
def filterTable (env : LoadEnv) (filter : Option Statement) (table : InnerTable) :
    Except Fault ColumnarTable := do
  let results ← selectResults n likeMatch env.evalSched table filter
  convertSelected n env.sched env.fresh env.retRows table results

/-- The columns of the file, from `table_cache` or read into it. -/
def cachedTable (path : String) (source : CSVSource) (caches : Caches) :
    Except Fault (InnerTable × Caches) :=
  match caches.tables path with
  | some table => .ok (table, caches)
  | none => do
    let table ← source.read stod path
    .ok (table, { caches with tables := emplace caches.tables path table })

/-- `Table::from_csv`. What was cached stays cached if the filter throws. -/
def Table.fromCsv (env : LoadEnv) (path : String) (source : CSVSource)
    (filter : Option Statement) (caches : Caches) : Except Fault ColumnarTable × Caches :=
  match filter, caches.results path with
  | none, some ret => (.ok (copy env.fresh ret), caches)
  | _, _ =>
    match cachedTable stod path source caches with
    | .error e => (.error e, caches)
    | .ok (table, caches) =>
      match filterTable n likeMatch env filter table with
      | .error e => (.error e, caches)
      | .ok ret =>
        (.ok ret,
          if filter = none then
            { caches with results := emplace caches.results path (copy env.fresh ret) }
          else caches)

end Load

/-! ## Copies -/

theorem copy_eq (fresh : Nat → Nat → Page) (value : ColumnarTable) : copy fresh value = value := by
  unfold copy
  simp [Buf.memcpy_slice_all]

/-! ## Filters on a table -/

/-- The calls that fill a column. The values of a type that no filter is for do not matter. -/
def callsOf : DataType → List Data → ColumnCalls
  | .varchar, cells => .varchar (cells.map Data.getVarchar)
  | .int32, cells | .int64, cells | .fp64, cells => .int32 (cells.map Data.getInt32)

/-- Two lists agree on the columns of the types that filters are for. -/
def AgreeOn {α : Type} (types : List DataType) (l l' : List α) : Prop :=
  ∀ (c : Nat) (type : DataType), types[c]? = some type → type = .int32 ∨ type = .varchar →
    l[c]? = l'[c]?

theorem Comparison.Fits.known {op : Op} {value : Literal} {type : DataType}
    (h : Fits op value type) : type = .int32 ∨ type = .varchar := by
  cases type with
  | int32 => exact .inl rfl
  | int64 => exact h.elim
  | fp64 => exact h.elim
  | varchar => exact .inr rfl

namespace Statement

variable {types types' : List DataType} {stmt : Statement}

theorem WellTyped.congr (h : stmt.WellTyped types) (hagree : AgreeOn types types types') :
    stmt.WellTyped types' := by
  induction stmt with
  | comparison column op value =>
    obtain ⟨type, htype, hfits⟩ := h
    exact ⟨type, hagree column type htype hfits.known ▸ htype, hfits⟩
  | and l r ihl ihr => exact ⟨ihl h.1, ihr h.2⟩
  | or l r ihl ihr => exact ⟨ihl h.1, ihr h.2⟩
  | not child ih => exact ih h

/-- Only the columns that a filter names are looked at. -/
theorem WellTyped.evalTable_congr (h : stmt.WellTyped types) {n : Nat}
    {likeMatch : List UInt8 → List UInt8 → Bool} {table table' : List InnerColumnBase}
    (hagree : AgreeOn types table table') (sched : List Bool → List Nat) :
    stmt.evalTable n likeMatch table sched = stmt.evalTable n likeMatch table' sched := by
  induction stmt generalizing sched with
  | comparison column op value =>
    obtain ⟨type, htype, hfits⟩ := h
    rw [evalTable, evalTable, hagree column type htype hfits.known]
  | and l r ihl ihr => rw [evalTable, evalTable, ihl h.1, ihr h.2]
  | or l r ihl ihr => rw [evalTable, evalTable, ihl h.1, ihr h.2]
  | not child ih => rw [evalTable, evalTable, ih h]

theorem WellTyped.eval_congr (h : stmt.WellTyped types)
    {likeMatch : List UInt8 → List UInt8 → Bool} {record record' : List Data}
    (hagree : AgreeOn types record record') :
    stmt.eval likeMatch record = stmt.eval likeMatch record' := by
  induction stmt with
  | comparison column op value =>
    obtain ⟨type, htype, hfits⟩ := h
    rw [eval, eval, hagree column type htype hfits.known]
  | and l r ihl ihr => rw [eval, eval, ihl h.1, ihr h.2]
  | or l r ihl ihr => rw [eval, eval, ihl h.1, ihr h.2]
  | not child ih => rw [eval, eval, ih h]

end Statement

/-- The columns that filters look at are filled by calls. -/
theorem agreeOn_buildColumns (attributes : List DataType) (rows : List (List Data)) :
    AgreeOn attributes (buildColumns attributes (Table.column ⟨rows, attributes⟩))
      ((perColumn callsOf attributes (Table.column ⟨rows, attributes⟩)).map
        ColumnCalls.build) := by
  intro c type htype hknown
  rw [List.getElem?_map, getElem?_perColumn, getElem?_perColumn, htype]
  rcases hknown with rfl | rfl <;> rfl

theorem agreeOn_record {attributes : List DataType} {rows : List (List Data)}
    (hrows : (⟨rows, attributes⟩ : Table).WellTyped) {i : Nat} {row : List Data}
    (hrow : rows[i]? = some row) : AgreeOn attributes
      (recordOf (perColumn callsOf attributes (Table.column ⟨rows, attributes⟩)) i) row := by
  intro c type htype hknown
  obtain ⟨hc, -⟩ := List.getElem?_eq_some_iff.mp htype
  have hall := hrows row (List.mem_of_getElem? hrow)
  have hc' : c < row.length := hall.length_eq ▸ hc
  have hcell : (Table.column ⟨rows, attributes⟩ c)[i]? = some row[c] := by
    rw [Table.column, List.getElem?_map, hrow, Option.map_some, List.getD_eq_getElem?_getD,
      List.getElem?_eq_getElem hc', Option.getD_some]
  have hmem : row[c] ∈ Table.column ⟨rows, attributes⟩ c := List.mem_of_getElem? hcell
  have hcells := hrows.column_hasType htype
  have hvalue : ∀ {α : Type} (mk : α → Data) (get : Data → Option α),
      ((Table.column ⟨rows, attributes⟩ c).map get).map (cellOf mk) =
        Table.column ⟨rows, attributes⟩ c →
      cellOf mk (valueAt ((Table.column ⟨rows, attributes⟩ c).map get) i) = row[c] := by
    intro α mk get hmap
    have hget := congrArg (·[i]?) hmap
    simp only [List.getElem?_map, hcell, Option.map_some, Option.some.injEq] at hget
    simp [valueAt, hcell, hget]
  rw [recordOf, List.getElem?_map, getElem?_perColumn, htype, List.getElem?_eq_getElem hc']
  rcases hknown with rfl | rfl
  · exact congrArg some (hvalue Data.int32 Data.getInt32 (map_getInt32 hcells))
  · exact congrArg some (hvalue Data.varchar Data.getVarchar (map_getVarchar hcells))

/-- The rows that a filter keeps. -/
def passes (likeMatch : List UInt8 → List UInt8 → Bool) :
    Option Statement → List Data → Bool
  | some filter, record => filter.eval likeMatch record = .ok true
  | none, _ => true

section Rows

variable {n : Nat} (hn : 0 < n) (likeMatch : List UInt8 → List UInt8 → Bool)
  {attributes : List DataType} {rows : List (List Data)} {table : InnerTable}
  (h : table.Holds attributes rows) (hrows : (⟨rows, attributes⟩ : Table).WellTyped)
  {filter : Option Statement} (hfilter : ∀ stmt, filter = some stmt → stmt.WellTyped attributes)
include hn h hrows hfilter

/-- The bitmap of a filter on the columns of a file. -/
theorem selectResults_ok (sched : List Bool → List Nat) : ∃ results p,
    selectResults n likeMatch sched table filter = .ok results ∧ Selects rows.length p results ∧
      ∀ i row, rows[i]? = some row → p i = passes likeMatch filter row := by
  cases filter with
  | none =>
    refine ⟨_, fun _ => true, rfl, ?_, fun _ _ _ => rfl⟩
    rw [h.numRows]
    exact selects_ones rows.length
  | some stmt =>
    have htyped := hfilter stmt rfl
    obtain ⟨calls, hcalls⟩ : ∃ calls,
        perColumn callsOf attributes (Table.column ⟨rows, attributes⟩) = calls := ⟨_, rfl⟩
    have hbuild := agreeOn_buildColumns attributes rows
    have hrecord : ∀ i row, rows[i]? = some row → AgreeOn attributes (recordOf calls i) row :=
      fun i row hrow => hcalls ▸ agreeOn_record hrows hrow
    have htypes : AgreeOn attributes attributes (calls.map ColumnCalls.type) := by
      intro c type htype hknown
      rw [← hcalls, List.getElem?_map, getElem?_perColumn, htype]
      rcases hknown with rfl | rfl <;> rfl
    have hlen : ∀ c ∈ calls, c.length = rows.length := by
      intro c hc
      rw [← hcalls] at hc
      obtain ⟨⟨type, i⟩, -, rfl⟩ := List.mem_map.mp hc
      cases type <;> simp [callsOf, ColumnCalls.length, Table.column]
    rw [hcalls] at hbuild
    obtain ⟨results, p, hresults, hselects, heval⟩ :=
      Statement.evalTable_ok hn likeMatch hlen (htyped.congr htypes) sched
    refine ⟨results, p, ?_, hselects, fun i row hrow => ?_⟩
    · show (stmt.evalTable n likeMatch table.columns sched).mapError EvalFault.toFault = _
      rw [h.columns, htyped.evalTable_congr hbuild, hresults]
      rfl
    · have hrow : stmt.eval likeMatch (recordOf calls i) = stmt.eval likeMatch row :=
        htyped.eval_congr (hrecord i row hrow)
      rw [heval] at hrow
      simp [passes, ← hrow]

/-- The table that is made of the columns of a file has the rows that pass the filter. -/
theorem filterTable_ok (env : LoadEnv) : filterTable n likeMatch env filter table =
    .ok ⟨if attributes = [] then env.retRows else (rows.filter (passes likeMatch filter)).length,
      perColumn Column.mk attributes
        (pagesOf env.fresh attributes (rows.filter (passes likeMatch filter)))⟩ := by
  obtain ⟨results, p, hresults, hselects, hp⟩ :=
    selectResults_ok hn likeMatch h hrows hfilter env.evalSched
  unfold filterTable
  rw [hresults, ok_bind, convertSelected_ok h env.fresh hselects hn, selected_eq_filter hp]

end Rows

/-! ## Files -/

/-- The parser throws on the file. -/
def CSVSource.Rejected (stod : Stod) (source : CSVSource) (content : List UInt8) : Prop :=
  HashJoin.Rejected stod source.attributes ((recordsOf content).1.headD []).length
    (recordsOf content).2 false (dataRecords source.header content)

/-- The file can be read, and each of its records has one field per attribute. The parser makes a
record of an empty file. -/
structure CSVSource.Regular (source : CSVSource) (buffers : List (List UInt8)) : Prop where
  file : source.file = some buffers
  nonempty : ∀ b ∈ buffers, b ≠ []
  width : ∀ record ∈ dataRecords source.header buffers.flatten,
    record.length = source.attributes.length
  empty : buffers = [] → source.header = true ∨ source.attributes.length ≠ 1

section Read

variable (stod : Stod) (path : String) {source : CSVSource} {buffers : List (List UInt8)}

theorem CSVSource.Regular.read_eq (h : source.Regular buffers) : source.read stod path =
    loadFile stod source.attributes source.header buffers >>= fun parser =>
      .ok parser.fullTable := by
  unfold CSVSource.read
  rw [h.file]
  exact parse_eq stod source.attributes source.header _ h.nonempty

/-- A file of regular records is read into their rows, unless the parser throws. -/
theorem CSVSource.Regular.read_cases (h : source.Regular buffers) :
    (source.Rejected stod buffers.flatten ∧
      ∃ what, source.read stod path = .error (.runtimeError what)) ∨
    ¬ source.Rejected stod buffers.flatten ∧ ∃ table rows, source.read stod path = .ok table ∧
      (dataRecords source.header buffers.flatten).mapM (readFields stod source.attributes) =
        .ok rows ∧ table.Holds source.attributes rows := by
  rw [h.read_eq]
  have hstart : (TableParser.start source.attributes).fullTable.Holds source.attributes [] :=
    .empty source.attributes
  by_cases hsome : buffers = []
  · right
    obtain ⟨parser, hload, hholds⟩ := loadFile_nil stod source.attributes source.header
    have hrecords : dataRecords source.header [] = [] := List.drop_nil
    rw [if_pos (h.empty hsome)] at hholds
    rw [hsome, hload, ok_bind]
    refine ⟨?_, _, [], rfl, by rw [List.flatten_nil, hrecords]; rfl, hholds⟩
    unfold CSVSource.Rejected
    rw [List.flatten_nil, hrecords]
    simp [HashJoin.Rejected, recordsOf, readRecords]
  · have hcontent : buffers.flatten ≠ [] := by
      obtain ⟨b, bs, rfl⟩ := List.exists_cons_of_ne_nil hsome
      have hb := h.nonempty b (by simp)
      simp [hb]
    obtain ⟨row, hdata, hrun⟩ := runRecords_below stod source.header
      (recordsOf buffers.flatten).2 (.start source.attributes) (recordsOf_ne_nil hcontent) rfl
    have hload : loadFile stod source.attributes source.header buffers = _ :=
      (if_neg hsome).trans hrun
    have hfields : ∀ record ∈ dataRecords source.header buffers.flatten, record ≠ [] :=
      fun record hr =>
        ne_nil_of_mem_readRecords false false [] [] _ record (List.mem_of_mem_drop hr)
    have hwidth := h.width
    rw [hload, ← dataRecords]
    unfold CSVSource.Rejected
    generalize dataRecords source.header buffers.flatten = records at hfields hwidth ⊢
    generalize (recordsOf buffers.flatten).2 = closed
    generalize ((recordsOf buffers.flatten).1.headD []).length = w
    by_cases hclosed : closed = true ∨ records ≠ []
    · rw [if_pos hclosed]
      by_cases hnil : records = []
      · subst hnil
        have htrue : closed = true := hclosed.resolve_right (by simp)
        rw [htrue]
        exact .inr ⟨by simp [HashJoin.Rejected], _, [], rfl, rfl, hstart⟩
      · obtain ⟨record, hr⟩ := List.exists_mem_of_ne_nil records hnil
        have hpos : 0 < source.attributes.length := by
          rw [← hwidth record hr]
          exact List.length_pos_iff.mpr (hfields record hr)
        rcases runRecords_cases stod w closed hdata hfields hclosed hstart with
          ⟨hrejected, what, hthrow⟩ | ⟨hrejected, hreturns⟩
        · rw [hthrow]
          exact .inl ⟨hrejected, what, rfl⟩
        · rcases runRecords_full stod w closed hdata hwidth hpos hstart rfl with
            ⟨what, hthrow⟩ | ⟨parser, rows, hok, hrows, hholds⟩
          · rcases hreturns with hfault | ⟨parser, rows, hok, -⟩
            · cases hfault.symm.trans hthrow
            · cases hok.symm.trans hthrow
          · rw [hok]
            exact .inr ⟨hrejected, _, rows, rfl, hrows, hholds⟩
    · obtain ⟨hopen, hnil⟩ := not_or.mp hclosed
      rw [not_not.mp hnil, if_neg (by simp [hopen])]
      exact .inl ⟨by simpa [HashJoin.Rejected] using hopen, _, rfl⟩

end Read

/-! ## One call -/

section Call

variable (n : Nat) (likeMatch : List UInt8 → List UInt8 → Bool) (stod : Stod)

/-- A call for a path that nothing is cached for. -/
theorem Table.fromCsv_empty (env : LoadEnv) (path : String) (source : CSVSource)
    (filter : Option Statement) :
    (Table.fromCsv n likeMatch stod env path source filter {}).1 =
      source.read stod path >>= filterTable n likeMatch env filter := by
  have hcached : cachedTable stod path source {} = (source.read stod path).map fun table =>
      (table, { tables := emplace (fun _ => none) path table }) := by
    show source.read stod path >>= _ = _
    cases source.read stod path <;> rfl
  have hcall : Table.fromCsv n likeMatch stod env path source filter {} =
      match cachedTable stod path source {} with
      | .error e => (.error e, {})
      | .ok (table, caches) =>
        match filterTable n likeMatch env filter table with
        | .error e => (.error e, caches)
        | .ok ret =>
          (.ok ret,
            if filter = none then
              { caches with results := emplace caches.results path (copy env.fresh ret) }
            else caches) := by
    cases filter <;> rfl
  rw [hcall, hcached]
  cases source.read stod path with
  | error e => rfl
  | ok table =>
    rw [ok_bind]
    simp only [Except.map]
    cases filterTable n likeMatch env filter table <;> rfl

/-- `from_csv` with a filter, on a file whose records are regular, throws if the parser does, and
else returns the records on which the filter is true: they are what the table is decoded to if and
only if its columns keep their values. -/
theorem Table.fromCsv_filtered {n : Nat} (hn : 0 < n) (env : LoadEnv) (path : String)
    {source : CSVSource} {buffers : List (List UInt8)} (h : source.Regular buffers)
    (hne : source.attributes ≠ []) {filter : Option Statement}
    (hfilter : ∀ stmt, filter = some stmt → stmt.WellTyped source.attributes) :
    (source.Rejected stod buffers.flatten ∧ ∃ what,
      (Table.fromCsv n likeMatch stod env path source filter {}).1 =
        .error (.runtimeError what)) ∨
    ¬ source.Rejected stod buffers.flatten ∧ ∃ rows kept table,
      (dataRecords source.header buffers.flatten).mapM (readFields stod source.attributes) =
        .ok rows ∧ kept = rows.filter (passes likeMatch filter) ∧
      (Table.fromCsv n likeMatch stod env path source filter {}).1 = .ok table ∧
      table.numRows = kept.length ∧
      (fromColumnar table = .ok ⟨kept, source.attributes⟩ ↔
        ∀ i type, source.attributes[i]? = some type →
          Kept (env.fresh i) type (Table.column ⟨kept, source.attributes⟩ i)) := by
  rw [Table.fromCsv_empty]
  rcases h.read_cases stod path with ⟨hrejected, what, hread⟩ |
    ⟨hrejected, table, rows, hread, hrows, hholds⟩
  · rw [hread]
    exact .inl ⟨hrejected, what, rfl⟩
  · have htyped := wellTyped_of_mapM stod h.width hrows
    have hkept : (⟨rows.filter (passes likeMatch filter), source.attributes⟩ : Table).WellTyped :=
      fun record hrecord => htyped record (List.mem_of_mem_filter hrecord)
    rw [hread, ok_bind, filterTable_ok hn likeMatch hholds htyped hfilter env, if_neg hne]
    exact .inr ⟨hrejected, rows, _, _, hrows, rfl, rfl, rfl, fromColumnar_pagesOf env.fresh hkept⟩

/-- The file `5\n7\n`, read in two pieces, for the filter `column 0 = 5`. -/
theorem Table.fromCsv_filtered_five : ∃ table,
    (Table.fromCsv 2 (fun _ _ => false) (fun _ => none)
      ⟨fun _ => [], [], fun _ _ => Buf.zero 8192, 0⟩ "t.csv"
      ⟨[.int32], false, some [[53], [10, 55, 10]]⟩
      (some (.comparison 0 .eq (.int64 5))) {}).1 = .ok table ∧ table.numRows = 1 := by
  have hrecords : recordsOf [53, 10, 55, 10] = ([[[53]], [[55]]], true) := by decide
  have hdata : dataRecords false [53, 10, 55, 10] = [[[53]], [[55]]] := by
    rw [dataRecords, hrecords]
    rfl
  have hread : [[[53]], [[55]]].mapM (readFields (fun _ => none) [.int32]) =
      .ok [[.int32 5], [.int32 7]] := by decide
  have hreturns : ¬ CSVSource.Rejected (fun _ => none)
      ⟨[.int32], false, some [[53], [10, 55, 10]]⟩ [53, 10, 55, 10] := by
    have h53 : Readable (fun _ => none) [.int32] [[53]] := ⟨[.int32 5], by decide⟩
    have h55 : Readable (fun _ => none) [.int32] [[55]] := ⟨[.int32 7], by decide⟩
    show ¬ HashJoin.Rejected _ _ ((recordsOf [53, 10, 55, 10]).1.headD []).length
      (recordsOf [53, 10, 55, 10]).2 false (dataRecords false [53, 10, 55, 10])
    rw [hdata, hrecords]
    rintro (hunread | ⟨-, hrest⟩)
    · exact hunread h53
    · rcases hrest (by decide) with hunread | ⟨-, hrest⟩
      · exact hunread h55
      · cases hrest (by decide)
  have hwidth : ∀ record ∈ dataRecords false [53, 10, 55, 10], record.length = 1 := by
    rw [hdata]
    decide
  have hregular : CSVSource.Regular ⟨[.int32], false, some [[53], [10, 55, 10]]⟩
      [[53], [10, 55, 10]] := ⟨rfl, by decide, hwidth, by decide⟩
  have hfilter : ∀ stmt, some (Statement.comparison 0 .eq (.int64 5)) = some stmt →
      stmt.WellTyped [.int32] := by
    rintro _ ⟨⟩
    exact ⟨.int32, rfl, .inr (.inr ⟨rfl, 5, rfl, by decide, by decide⟩)⟩
  rcases Table.fromCsv_filtered (fun _ _ => false) (fun _ => none) (show 0 < 2 by decide)
      ⟨fun _ => [], [], fun _ _ => Buf.zero 8192, 0⟩ "t.csv" hregular (by decide) hfilter with
    ⟨hrejected, -⟩ | ⟨-, rows, kept, table, hrows, rfl, hcall, hnum, -⟩
  · exact absurd hrejected hreturns
  · change (dataRecords false [53, 10, 55, 10]).mapM (readFields (fun _ => none) [.int32]) =
      .ok rows at hrows
    rw [hdata, hread] at hrows
    cases hrows
    exact ⟨table, hcall, hnum⟩

end Call

/-! ## Many calls -/

/-- A call of `from_csv`, and what is outside the program during it. -/
structure LoadCall where
  path : String
  attributes : List DataType
  filter : Option Statement
  header : Bool := false
  env : LoadEnv

section Calls

variable (n : Nat) (likeMatch : List UInt8 → List UInt8 → Bool) (stod : Stod)
  (files : String → Option (List (List UInt8)))

def LoadCall.source (call : LoadCall) : CSVSource :=
  ⟨call.attributes, call.header, files call.path⟩

def LoadCall.run (call : LoadCall) (caches : Caches) : Except Fault ColumnarTable × Caches :=
  Table.fromCsv n likeMatch stod call.env call.path (call.source files) call.filter caches

/-- The results of the calls, one after another. -/
def loads : List LoadCall → Caches → List (Except Fault ColumnarTable)
  | [], _ => []
  | call :: calls, caches =>
    (call.run n likeMatch stod files caches).1 ::
      loads calls (call.run n likeMatch stod files caches).2

/-- All calls give a file the same columns. What is cached was read from its file, or returned by a
call without a filter. -/
structure Caches.Valid (disk : String → CSVSource) (past : List LoadCall) (caches : Caches) :
    Prop where
  calls : ∀ call ∈ past, call.source files = disk call.path
  tables : ∀ path table, caches.tables path = some table → (disk path).read stod path = .ok table
  results : ∀ path ret, caches.results path = some ret → ∃ other ∈ past, other.path = path ∧
    other.filter = none ∧ (other.run n likeMatch stod files {}).1 = .ok ret

variable {n} {likeMatch} {stod} {files} {disk : String → CSVSource} {past : List LoadCall}
  {caches : Caches}

theorem Caches.Valid.mono (h : caches.Valid n likeMatch stod files disk past) {call : LoadCall}
    (hdisk : call.source files = disk call.path) :
    caches.Valid n likeMatch stod files disk (past ++ [call]) :=
  ⟨List.forall_mem_append.mpr ⟨h.calls, List.forall_mem_singleton.mpr hdisk⟩, h.tables,
    fun path ret hret =>
    have ⟨other, hother, hcall⟩ := h.results path ret hret
    ⟨other, List.mem_append_left _ hother, hcall⟩⟩

/-- The columns of a file are those that are read from it. -/
theorem Caches.Valid.cachedTable (h : caches.Valid n likeMatch stod files disk past)
    (path : String) :
    (∃ e, (disk path).read stod path = .error e ∧
      HashJoin.cachedTable stod path (disk path) caches = .error e) ∨
    ∃ table caches', (disk path).read stod path = .ok table ∧
      HashJoin.cachedTable stod path (disk path) caches = .ok (table, caches') ∧
      caches'.Valid n likeMatch stod files disk past := by
  unfold HashJoin.cachedTable
  cases htable : caches.tables path with
  | some table => exact .inr ⟨table, caches, h.tables path table htable, rfl, h⟩
  | none =>
    cases hread : (disk path).read stod path with
    | error e => exact .inl ⟨e, rfl, rfl⟩
    | ok table =>
      refine .inr ⟨table, _, rfl, rfl, h.calls, fun path' table' hcached => ?_, h.results⟩
      rcases emplace_eq_some hcached with hold | ⟨-, rfl, rfl⟩
      · exact h.tables path' table' hold
      · exact hread

/-- A call returns what it or an earlier call for the same table returns without caches. -/
theorem Caches.Valid.run (h : caches.Valid n likeMatch stod files disk past) {call : LoadCall}
    (hdisk : call.source files = disk call.path) :
    (call.run n likeMatch stod files caches).2.Valid n likeMatch stod files disk (past ++ [call]) ∧
    ∃ other ∈ past ++ [call], other.path = call.path ∧ other.filter = call.filter ∧
      (call.run n likeMatch stod files caches).1 = (other.run n likeMatch stod files {}).1 := by
  have hmono := fun {caches : Caches} (h : caches.Valid n likeMatch stod files disk past) =>
    h.mono hdisk
  obtain ⟨path, attributes, filter, header, env⟩ := call
  change _ = disk path at hdisk
  by_cases hhit : filter = none ∧ (caches.results path).isSome
  · -- A copy of the result of an earlier call.
    obtain ⟨rfl, hsome⟩ := hhit
    obtain ⟨ret, hret⟩ := Option.isSome_iff_exists.mp hsome
    have hrun : LoadCall.run n likeMatch stod files ⟨path, attributes, none, header, env⟩ caches =
        (.ok (copy env.fresh ret), caches) := by
      show Table.fromCsv n likeMatch stod env path _ none caches = _
      unfold Table.fromCsv
      rw [hret]
    obtain ⟨other, hother, hpath, hfilter, hresult⟩ := h.results path ret hret
    rw [hrun, copy_eq]
    exact ⟨hmono h, other, List.mem_append_left _ hother, hpath, hfilter, hresult.symm⟩
  · have hrun : LoadCall.run n likeMatch stod files ⟨path, attributes, filter, header, env⟩ caches =
        match HashJoin.cachedTable stod path (disk path) caches with
        | .error e => (.error e, caches)
        | .ok (table, caches) =>
          match filterTable n likeMatch env filter table with
          | .error e => (.error e, caches)
          | .ok ret =>
            (.ok ret,
              if filter = none then
                { caches with results := emplace caches.results path (copy env.fresh ret) }
              else caches) := by
      show Table.fromCsv n likeMatch stod env path (LoadCall.source _ _) filter caches = _
      rw [hdisk]
      unfold Table.fromCsv
      cases filter with
      | some stmt => rfl
      | none =>
        cases hret : caches.results path with
        | none => rfl
        | some ret => exact absurd ⟨rfl, by rw [hret]; rfl⟩ hhit
    have hself : (⟨path, attributes, filter, header, env⟩ : LoadCall) ∈
        past ++ [⟨path, attributes, filter, header, env⟩] := by
      simp
    have halone :
        (LoadCall.run n likeMatch stod files ⟨path, attributes, filter, header, env⟩ {}).1 =
          (disk path).read stod path >>= filterTable n likeMatch env filter := by
      rw [← hdisk]
      exact Table.fromCsv_empty n likeMatch stod env path _ filter
    rcases h.cachedTable path with ⟨e, hread, hcached⟩ | ⟨table, caches', hread, hcached, h'⟩
    · rw [hcached] at hrun
      rw [hrun]
      exact ⟨hmono h, _, hself, rfl, rfl, by rw [halone, hread]; rfl⟩
    · rw [hcached] at hrun
      rw [hread, ok_bind] at halone
      simp only at hrun
      cases hret : filterTable n likeMatch env filter table with
      | error e =>
        rw [hret] at hrun halone
        rw [hrun]
        exact ⟨hmono h', _, hself, rfl, rfl, halone.symm⟩
      | ok ret =>
        rw [hret] at hrun halone
        rw [hrun]
        refine ⟨?_, _, hself, rfl, rfl, halone.symm⟩
        by_cases hnone : filter = none
        · simp only [if_pos hnone]
          refine ⟨(hmono h').calls, h'.tables, fun path' ret' hcached => ?_⟩
          rcases emplace_eq_some hcached with hold | ⟨-, rfl, rfl⟩
          · exact (hmono h').results path' ret' hold
          · rw [copy_eq]
            exact ⟨_, hself, rfl, hnone, halone⟩
        · simp only [if_neg hnone]
          exact hmono h'

theorem Caches.Valid.loads (h : caches.Valid n likeMatch stod files disk past)
    {calls : List LoadCall} (hdisk : ∀ call ∈ calls, call.source files = disk call.path) :
    List.Forall₂ (fun call result => ∃ other ∈ past ++ calls, other.path = call.path ∧
        other.filter = call.filter ∧ result = (other.run n likeMatch stod files {}).1)
      calls (loads n likeMatch stod files calls caches) := by
  induction calls generalizing past caches with
  | nil => exact .nil
  | cons call calls ih =>
    rw [List.forall_mem_cons] at hdisk
    obtain ⟨hvalid, other, hother, hcall⟩ := h.run hdisk.1
    have hrest := ih hvalid hdisk.2
    rw [List.append_assoc] at hrest
    refine .cons ⟨other, ?_, hcall⟩ hrest
    rcases List.mem_append.mp hother with hother | hother
    · exact List.mem_append_left _ hother
    · exact List.mem_append_right _ (by simp [List.mem_singleton.mp hother])

theorem Caches.Valid.empty (disk : String → CSVSource) :
    Caches.Valid n likeMatch stod files disk [] {} where
  calls := by simp
  tables := fun _ _ h => by cases h
  results := fun _ _ h => by cases h

end Calls

/-- A file is always loaded with the same columns. The caches go by the path alone. -/
def SameColumns (calls : List LoadCall) : Prop :=
  ∀ call ∈ calls, ∀ other ∈ calls, call.path = other.path →
    call.attributes = other.attributes ∧ call.header = other.header

/-- Whatever was loaded before, every call of `from_csv` in a run returns, or throws, what some call
of the run for the same path and filter does without caches, as long as the files stay as they
are and are loaded with the same columns. -/
theorem loads_uncached (n : Nat) (likeMatch : List UInt8 → List UInt8 → Bool) (stod : Stod)
    (files : String → Option (List (List UInt8))) {calls : List LoadCall}
    (hcalls : SameColumns calls) :
    List.Forall₂ (fun call result => ∃ other ∈ calls, other.path = call.path ∧
        other.filter = call.filter ∧ result = (other.run n likeMatch stod files {}).1)
      calls (loads n likeMatch stod files calls {}) := by
  obtain ⟨disk, hdisk⟩ : ∃ disk : String → CSVSource,
      ∀ call ∈ calls, call.source files = disk call.path := by
    refine ⟨fun path => ((calls.find? (·.path = path)).map (·.source files)).getD ⟨[], false, none⟩,
      fun call hcall => ?_⟩
    cases hfind : calls.find? (·.path = call.path) with
    | none => simpa using List.find?_eq_none.mp hfind call hcall
    | some other =>
      have hpath : other.path = call.path := by simpa using List.find?_some hfind
      obtain ⟨hattributes, hheader⟩ :=
        hcalls call hcall other (List.mem_of_find?_eq_some hfind) hpath.symm
      show _ = ((calls.find? (·.path = call.path)).map (·.source files)).getD _
      rw [hfind]
      simp [LoadCall.source, hpath, hattributes, hheader]
  exact (Caches.Valid.empty disk).loads hdisk

/-- A table is loaded whole, with a filter, and whole again, which copies the first result. -/
theorem loads_uncached_thrice :
    let env : LoadEnv := ⟨fun _ => [], [], fun _ _ => Buf.zero 8192, 0⟩
    let calls : List LoadCall := [⟨"t.csv", [.int32], none, false, env⟩,
      ⟨"t.csv", [.int32], some (.comparison 0 .eq (.int64 5)), false, env⟩,
      ⟨"t.csv", [.int32], none, false, env⟩]
    let files := fun _ => some [[53], [10, 55, 10]]
    List.Forall₂ (fun call result => ∃ other ∈ calls, other.path = call.path ∧
        other.filter = call.filter ∧
        result = (other.run 2 (fun _ _ => false) (fun _ => none) files {}).1)
      calls (loads 2 (fun _ _ => false) (fun _ => none) files calls {}) :=
  loads_uncached 2 _ _ _ (by simp [SameColumns])

end HashJoin
