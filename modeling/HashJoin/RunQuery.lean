import HashJoin.QueryAnswer
import HashJoin.TypedPlan

/-!
# Running queries

`run` parses a query, generates its plan from a given one, for which it loads a table for each
scan, and executes the plan. The caches of the files and the allocator stay from one query to the
next, and an exception ends the program.
-/

namespace HashJoin

open Bytes Relational

/-! ## Loading the inputs -/

/-- The path of the file of a table. -/
def csvPath (table : String) : String := "imdb/" ++ table ++ ".csv"

/-- The types of the columns of a table. -/
def columnTypes (table : String) : List DataType :=
  ((attributesMap table).getD []).map Attribute.type

/-- The call of `from_csv` for a scan. -/
def loadCall (env : LoadEnv) (entity : TableEntity) (filter : Option Statement) : LoadCall where
  path := csvPath entity.table
  attributes := columnTypes entity.table
  filter := filter
  env := env

section Run

variable (n : Nat) (likeMatch : List UInt8 → List UInt8 → Bool) (stod : Stod)
  (files : String → Option (List (List UInt8)))

/-- An input of a plan. A `LogicalOperation` without a child cannot be evaluated. -/
def loadInput (env : LoadEnv) (input : TableEntity × Option Filter) (caches : Caches) :
    Except Fault ColumnarTable × Caches :=
  match input.2 with
  | none => (loadCall env input.1 none).run n likeMatch stod files caches
  | some (.statement stmt) =>
    (loadCall env input.1 (some stmt)).run n likeMatch stod files caches
  | some .nullChild =>
    let call := loadCall env input.1 none
    match cachedTable stod call.path (call.source files) caches with
    | .error e => (.error e, caches)
    | .ok (_, caches) => (.error .outOfRange, caches)

/-- `recurse` loads the table of a scan with `from_csv`, and adds it to the inputs of the plan. -/
def csvLoader (env : Nat → LoadEnv) : Loader (List ColumnarTable × Caches) :=
  fun inputId input state =>
    match loadInput n likeMatch stod files (env inputId) input state.2 with
    | (.error e, _) => .error e
    | (.ok table, caches) => .ok (state.1 ++ [table], caches)

/-! ## One query after another -/

/-- A query with the plan of another database. -/
structure QueryCall where
  query : Query
  plan : PlanTree

/-- What is outside the program while it runs a query. -/
structure RunEnv where
  parse : ParseEnv
  order : IterationOrder Edge
  load : Nat → LoadEnv
  node : List Bool → NodeEnv
  fresh : Nat → Nat → Nat → Page

/-- What stays from one query to the next. -/
structure RunState where
  caches : Caches := {}
  global : GlobalAllocator := {}

variable (numThreads : Nat) (columnToTables : String → Option (List String))

/-- `run` up to the comparison of the results. -/
def QueryCall.run (call : QueryCall) (env : RunEnv) (state : RunState) :
    Except Fault (ColumnarTable × RunState) := do
  let sql ← parseSQL columnToTables env.parse call.query
  let ((ret, root), inputs, caches) ← loadJoinPipeline
    (csvLoader n likeMatch stod files env.load) sql env.order call.plan ([], state.caches)
  let (results, global) ←
    execute ⟨ret.nodes, inputs, root⟩ numThreads env.node env.fresh state.global
  .ok (results, { caches, global })

/-- The queries of a run, one after another. -/
def runs (calls : List (QueryCall × RunEnv)) (state : RunState) : Except Fault RunState :=
  calls.foldlM (fun state call => do
    let (_, state) ← call.1.run n likeMatch stod files numThreads columnToTables call.2 state
    .ok state) state

end Run

/-! ## The caches of a run -/

theorem csvPath_injective : Function.Injective csvPath := by
  intro table table' h
  have h := congrArg String.toList h
  simp only [csvPath, String.toList_append, List.append_cancel_right_eq,
    List.append_cancel_left_eq] at h
  exact String.toList_injective h

/-- A source for each path that agrees with those of all tables. -/
theorem exists_disk (files : String → Option (List (List UInt8))) :
    ∃ disk : String → CSVSource, ∀ table,
      disk (csvPath table) = ⟨columnTypes table, false, files (csvPath table)⟩ :=
  ⟨fun path => ⟨columnTypes (Function.invFun csvPath path), false, files path⟩, fun table => by
    simp only [Function.leftInverse_invFun csvPath_injective table]⟩

section Valid

variable {n : Nat} {likeMatch : List UInt8 → List UInt8 → Bool} {stod : Stod}
  {files : String → Option (List (List UInt8))} {disk : String → CSVSource}
  (hdisk : ∀ table, disk (csvPath table) = ⟨columnTypes table, false, files (csvPath table)⟩)
include hdisk

theorem Caches.Valid.loadInput {past : List LoadCall} {caches : Caches}
    (h : caches.Valid n likeMatch stod files disk past) (env : LoadEnv)
    (input : TableEntity × Option Filter) : ∃ past',
      (HashJoin.loadInput n likeMatch stod files env input caches).2.Valid n likeMatch stod files
        disk past' := by
  obtain ⟨entity, filter⟩ := input
  have hcall : ∀ filter, (loadCall env entity filter).source files =
      disk (loadCall env entity filter).path := fun filter => (hdisk entity.table).symm
  match filter with
  | none => exact ⟨_, (h.run (hcall none)).1⟩
  | some (.statement stmt) => exact ⟨_, (h.run (hcall (some stmt))).1⟩
  | some .nullChild =>
    simp only [HashJoin.loadInput]
    rw [hcall none]
    rcases h.cachedTable (loadCall env entity none).path with
      ⟨e, -, hcached⟩ | ⟨table, caches', -, hcached, h'⟩
    · rw [hcached]
      exact ⟨past, h⟩
    · rw [hcached]
      exact ⟨past, h'⟩

/-- A scan leaves valid caches. -/
theorem Caches.Valid.csvLoader {env : Nat → LoadEnv} {inputId : Nat}
    {input : TableEntity × Option Filter} {state state' : List ColumnarTable × Caches}
    (h : ∃ past, state.2.Valid n likeMatch stod files disk past)
    (hload : HashJoin.csvLoader n likeMatch stod files env inputId input state = .ok state') :
    ∃ past, state'.2.Valid n likeMatch stod files disk past := by
  obtain ⟨past, h⟩ := h
  obtain ⟨past', h'⟩ := h.loadInput hdisk (env inputId) input
  unfold HashJoin.csvLoader at hload
  split at hload
  · cases hload
  · next table caches hinput =>
    rw [hinput] at h'
    exact Except.ok.inj hload ▸ ⟨past', h'⟩

theorem Caches.Valid.queryRun {numThreads : Nat} {columnToTables : String → Option (List String)}
    {state state' : RunState} (h : ∃ past, state.caches.Valid n likeMatch stod files disk past)
    {call : QueryCall} {env : RunEnv} {results : ColumnarTable}
    (hrun : call.run n likeMatch stod files numThreads columnToTables env state =
      .ok (results, state')) : ∃ past, state'.caches.Valid n likeMatch stod files disk past := by
  obtain ⟨sql, -, hrun⟩ := bind_eq_ok.mp hrun
  obtain ⟨⟨⟨ret, root⟩, inputs, caches⟩, hload, hrun⟩ := bind_eq_ok.mp hrun
  obtain ⟨⟨results', global⟩, -, hrun⟩ := bind_eq_ok.mp hrun
  obtain ⟨-, rfl⟩ := Prod.mk.inj (Except.ok.inj hrun)
  have hall := (loadJoinPipeline_reload planOnly hload).1
  exact foldlM_invariant
    (P := fun state : List ColumnarTable × Caches =>
      ∃ past, state.2.Valid n likeMatch stod files disk past)
    (fun _ _ _ _ hvalid hstep => Caches.Valid.csvLoader hdisk hvalid hstep) h hall

/-- The caches stay valid, whatever queries are run. -/
theorem Caches.Valid.runs {numThreads : Nat} {columnToTables : String → Option (List String)}
    {calls : List (QueryCall × RunEnv)} {state : RunState}
    (hruns : HashJoin.runs n likeMatch stod files numThreads columnToTables calls {} = .ok state) :
    ∃ past, state.caches.Valid n likeMatch stod files disk past := by
  refine foldlM_invariant
    (P := fun state : RunState => ∃ past, state.caches.Valid n likeMatch stod files disk past)
    (fun call _ state state' hvalid hstep => ?_) ⟨[], .empty disk⟩ hruns
  obtain ⟨⟨results, state₁⟩, hrun, hstep⟩ := bind_eq_ok.mp hstep
  exact Except.ok.inj hstep ▸ Caches.Valid.queryRun hdisk hvalid hrun

end Valid

/-! ## The tables of a run -/

/-- The file of a table can be read to its rows. -/
def TableFile (stod : Stod) (files : String → Option (List (List UInt8))) (table : String)
    (rows : List (List Data)) : Prop :=
  ∃ buffers, CSVSource.Regular ⟨columnTypes table, false, files (csvPath table)⟩ buffers ∧
    ¬ CSVSource.Rejected stod ⟨columnTypes table, false, files (csvPath table)⟩ buffers.flatten ∧
    (dataRecords false buffers.flatten).mapM (readFields stod (columnTypes table)) = .ok rows

theorem TableFile.wellTyped {stod : Stod} {files : String → Option (List (List UInt8))}
    {table : String} {rows : List (List Data)} (h : TableFile stod files table rows) :
    (⟨rows, columnTypes table⟩ : Table).WellTyped := by
  obtain ⟨buffers, hregular, -, hrows⟩ := h
  exact wellTyped_of_mapM stod hregular.width hrows

/-- Records with a readable field for each attribute are not rejected. -/
theorem not_rejected {stod : Stod} {attributes : List DataType}
    {records : List (List (List UInt8))}
    (hwidth : ∀ record ∈ records, record.length = attributes.length) {rows : List (List Data)}
    (hrows : records.mapM (readFields stod attributes) = .ok rows) :
    ¬ Rejected stod attributes attributes.length true false records := by
  have hreadable := mapM_eq_ok_iff.mp hrows
  induction hreadable with
  | nil => simp [Rejected]
  | @cons record row records rows hread hrest ih =>
    rw [List.forall_mem_cons] at hwidth
    have hcomplete : Complete attributes.length true record records := ⟨hwidth.1, .inl rfl⟩
    rintro (hunread | ⟨-, hlater⟩)
    · rw [seenFields, if_pos hcomplete] at hunread
      exact hunread ⟨row, hread⟩
    · have hlater := hlater hcomplete
      simp only [hwidth.1, ne_eq, not_true_eq_false] at hlater
      exact ih hwidth.2 (mapM_eq_ok_iff.mpr hrest) (by simpa using hlater)

/-- A file whose records have a readable field for each column. -/
theorem TableFile.of_records {stod : Stod} {files : String → Option (List (List UInt8))}
    {table : String} {buffers : List (List UInt8)} (hfile : files (csvPath table) = some buffers)
    (hnonempty : ∀ b ∈ buffers, b ≠ []) (hne : buffers ≠ [])
    {records : List (List (List UInt8))} (hrecords : recordsOf buffers.flatten = (records, true))
    (hwidth : ∀ record ∈ records, record.length = (columnTypes table).length)
    {rows : List (List Data)}
    (hrows : records.mapM (readFields stod (columnTypes table)) = .ok rows) :
    TableFile stod files table rows := by
  have hdata : dataRecords false buffers.flatten = records := by
    rw [dataRecords, hrecords]
    rfl
  refine ⟨buffers, ⟨hfile, hnonempty, by rwa [hdata], fun hnil => absurd hnil hne⟩, ?_,
    by rwa [hdata]⟩
  unfold CSVSource.Rejected
  rw [hdata, hrecords]
  cases records with
  | nil => simp [Rejected]
  | cons record records =>
    have hhead : ((record :: records).headD []).length = (columnTypes table).length :=
      hwidth record (by simp)
    simp only [hhead]
    exact not_rejected hwidth hrows

/-- What `from_csv` makes of the columns of a file is an input with the rows that pass. -/
theorem tableWritten_filterTable {n : Nat} (hn : 0 < n)
    (likeMatch : List UInt8 → List UInt8 → Bool) {attributes : List DataType}
    {rows : List (List Data)} {table : InnerTable} (h : table.Holds attributes rows)
    (hrows : (⟨rows, attributes⟩ : Table).WellTyped) (hne : attributes ≠ [])
    {filter : Option Statement}
    (hfilter : ∀ stmt, filter = some stmt → stmt.WellTyped attributes) (env : LoadEnv) :
    ∃ columnar, filterTable n likeMatch env filter table = .ok columnar ∧
      TableWritten ⟨rows.filter (passes likeMatch filter), attributes⟩ columnar ∧
      columnar.columns = perColumn Column.mk attributes
        (pagesOf env.fresh attributes (rows.filter (passes likeMatch filter))) := by
  refine ⟨_, filterTable_ok hn likeMatch h hrows hfilter env, ?_, rfl⟩
  rw [if_neg hne]
  refine ⟨fun row hrow => hrows row (List.mem_of_mem_filter hrow), rfl, fun a type htype => ?_⟩
  refine ⟨⟨type, writeCells (env.fresh a) type
    (Table.column ⟨rows.filter (passes likeMatch filter), attributes⟩ a)⟩, ?_, rfl,
    env.fresh a, .inr rfl⟩
  rw [getElem?_perColumn, htype, Option.map_some, pagesOf, htype]

/-- The table of a scan has columns, its file can be read to the rows, and the filter fits the
columns. -/
structure ScanReadable (stod : Stod) (files : String → Option (List (List UInt8)))
    (rows : List (List Data)) (input : TableEntity × Option Filter) : Prop where
  file : TableFile stod files input.1.table rows
  columns : columnTypes input.1.table ≠ []
  filter : ∀ f, input.2 = some f → ∃ stmt, f = .statement stmt ∧
    stmt.WellTyped (columnTypes input.1.table)

/-- A scan is loaded with the rows of its table that its filter keeps. -/
theorem Caches.Valid.loadInput_ok {n : Nat} (hn : 0 < n)
    {likeMatch : List UInt8 → List UInt8 → Bool} {stod : Stod}
    {files : String → Option (List (List UInt8))} {disk : String → CSVSource}
    (hdisk : ∀ table, disk (csvPath table) = ⟨columnTypes table, false, files (csvPath table)⟩)
    {past : List LoadCall} {caches : Caches} (h : caches.Valid n likeMatch stod files disk past)
    (env : LoadEnv) {entity : TableEntity} {filter : Option Filter} {rows : List (List Data)}
    (hscan : ScanReadable stod files rows (entity, filter)) :
    ∃ columnar,
      (HashJoin.loadInput n likeMatch stod files env (entity, filter) caches).1 = .ok columnar ∧
      TableWritten ⟨rows.filter (Filter.passes likeMatch filter), columnTypes entity.table⟩
        columnar ∧
      ∃ fresh, columnar.columns = perColumn Column.mk (columnTypes entity.table)
        (pagesOf fresh (columnTypes entity.table)
          (rows.filter (Filter.passes likeMatch filter))) := by
  obtain ⟨stmt, hcall, hpasses, htyped⟩ : ∃ stmt : Option Statement,
      HashJoin.loadInput n likeMatch stod files env (entity, filter) caches =
        (loadCall env entity stmt).run n likeMatch stod files caches ∧
      Filter.passes likeMatch filter = passes likeMatch stmt ∧
      ∀ s, stmt = some s → s.WellTyped (columnTypes entity.table) := by
    cases filter with
    | none => exact ⟨none, rfl, rfl, by simp⟩
    | some f =>
      obtain ⟨s, rfl, hs⟩ := hscan.filter f rfl
      exact ⟨some s, rfl, rfl, fun s' hs' => Option.some.inj hs' ▸ hs⟩
  have hsource : (loadCall env entity stmt).source files = disk (csvPath entity.table) :=
    (hdisk entity.table).symm
  obtain ⟨hvalid, other, hother, hpath, hstmt, hresult⟩ := h.run hsource
  have hothers := hvalid.calls other hother
  obtain ⟨path, attributes, stmt', header, env'⟩ := other
  obtain rfl : path = csvPath entity.table := hpath
  obtain rfl : stmt' = stmt := hstmt
  obtain ⟨buffers, hregular, haccepted, hrows⟩ := hscan.file
  have htable := wellTyped_of_mapM stod hregular.width hrows
  rcases hregular.read_cases stod (csvPath entity.table) with
    ⟨hrejected, -⟩ | ⟨-, table, rows', hread, hrows', hholds⟩
  · exact absurd hrejected haccepted
  · obtain rfl : rows' = rows := Except.ok.inj (hrows'.symm.trans hrows)
    obtain ⟨columnar, hfilterTable, hwritten, hcolumns⟩ :=
      tableWritten_filterTable hn likeMatch hholds htable hscan.columns htyped env'
    refine ⟨columnar, ?_, hpasses ▸ hwritten, env'.fresh, hpasses ▸ hcolumns⟩
    rw [hcall, hresult]
    show (Table.fromCsv n likeMatch stod env' _ (LoadCall.source files _) stmt' {}).1 = _
    rw [hothers, hdisk, Table.fromCsv_empty, hread, ok_bind, hfilterTable]

/-- The inputs of a plan are loaded with the rows of their tables that their filters keep. -/
theorem Caches.Valid.loadAll_ok {n : Nat} (hn : 0 < n)
    {likeMatch : List UInt8 → List UInt8 → Bool} {stod : Stod}
    {files : String → Option (List (List UInt8))} {disk : String → CSVSource}
    (hdisk : ∀ table, disk (csvPath table) = ⟨columnTypes table, false, files (csvPath table)⟩)
    {base : String → List (List Data)} (inputs : List (TableEntity × Option Filter))
    (hinputs : ∀ input ∈ inputs, ScanReadable stod files (base input.1.table) input)
    {past : List LoadCall} {caches : Caches} (h : caches.Valid n likeMatch stod files disk past)
    (env : Nat → LoadEnv) (start : Nat) (loaded : List ColumnarTable) : ∃ tables caches',
      (HashJoin.csvLoader n likeMatch stod files env).loadAll start inputs (loaded, caches) =
        .ok (loaded ++ tables, caches') ∧
      List.Forall₂ TableWritten (inputs.map fun input =>
        ⟨(base input.1.table).filter (Filter.passes likeMatch input.2),
          columnTypes input.1.table⟩) tables := by
  induction inputs generalizing past caches start loaded with
  | nil => exact ⟨[], caches, by rw [List.append_nil]; rfl, .nil⟩
  | cons input inputs ih =>
    rw [List.forall_mem_cons] at hinputs
    obtain ⟨hscan, hinputs⟩ := hinputs
    obtain ⟨table, htable, hwritten, -⟩ := h.loadInput_ok hn hdisk (env start) hscan
    obtain ⟨past₁, h₁⟩ := h.loadInput hdisk (env start) input
    cases hinput : HashJoin.loadInput n likeMatch stod files (env start) input caches with
    | mk result caches₁ =>
      rw [hinput] at h₁
      have hresult : result = .ok table := by
        rw [← htable]
        exact (congrArg Prod.fst hinput).symm
      have hone : HashJoin.csvLoader n likeMatch stod files env start input (loaded, caches) =
          .ok (loaded ++ [table], caches₁) := by
        unfold HashJoin.csvLoader
        simp only [hinput, hresult]
      obtain ⟨tables, caches', htables, hall⟩ := ih hinputs h₁ (start + 1) (loaded ++ [table])
      refine ⟨table :: tables, caches', ?_, .cons hwritten hall⟩
      rw [Loader.loadAll_cons, hone, ok_bind, htables, List.append_assoc]
      rfl

/-! ## The plan over the loaded tables -/

/-- The tables that the scans of a plan read. -/
def Pipeline.keptTables (ret : Pipeline) (likeMatch : List UInt8 → List UInt8 → Bool)
    (base : String → List (List Data)) : List Table :=
  ret.inputs.map fun input =>
    ⟨(base input.1.table).filter (Filter.passes likeMatch input.2), columnTypes input.1.table⟩

section Plan

variable {query : Query} {sql : ParsedSQL} {ret : Pipeline} {root : Nat}
  (h : PlanOf query sql ret root)
include h

theorem PlanOf.isScan {idx inputId : Nat} {node : PlanNode} (hnode : ret.nodes[idx]? = some node)
    (hdata : node.data = .scan inputId) : ret.IsScan idx node inputId :=
  ⟨hnode, hdata, h.valid.inputs node (List.mem_of_getElem? hnode) inputId hdata⟩

theorem PlanOf.nodeOk {idx : Nat} {node : PlanNode} (hnode : ret.nodes[idx]? = some node) :
    ∃ required, ret.NodeOk sql idx node required := by
  obtain ⟨node', required, hnode', -, hok⟩ :=
    h.nodes idx (Nat.zero_le _) (List.getElem?_eq_some_iff.mp hnode).1
  obtain rfl : node' = node := Option.some.inj (hnode'.symm.trans hnode)
  exact ⟨required, hok⟩

theorem PlanOf.isJoin {idx left right leftAttr rightAttr : Nat} {node : PlanNode}
    (hnode : ret.nodes[idx]? = some node)
    (hdata : node.data = .join left right leftAttr rightAttr) :
    ∃ leftCol rightCol,
      Pipeline.IsJoin sql ret idx node left right leftAttr rightAttr leftCol rightCol := by
  obtain ⟨required, hok⟩ := h.nodeOk hnode
  obtain ⟨hl, hr⟩ := hok.children left right leftAttr rightAttr hdata
  obtain ⟨leftCol, rightCol, hleftCol, hrightCol, hleft, hright, hedge⟩ :=
    hok.edge left right leftAttr rightAttr hdata
  exact ⟨leftCol, rightCol, hnode, hdata, hl, hr, hleftCol, hrightCol, hleft, hright, hedge⟩

/-- The attributes of a node are there, with their types. -/
theorem PlanOf.outputAttrs {idx : Nat} {node : PlanNode} (hnode : ret.nodes[idx]? = some node)
    {columns : List OutputColumn} (hcolumns : ret.columnsOf idx = project node.attrs columns) :
    ∀ attr ∈ node.outputAttrs, columns[attr.1]?.map OutputColumn.type = some attr.2 := by
  obtain ⟨required, hok⟩ := h.nodeOk hnode
  have htypes := hok.types
  rw [hcolumns] at htypes
  exact project_full htypes

theorem PlanOf.types_eq {inputs : List ColumnarTable} {idx : Nat} (hlt : idx < ret.nodes.length) :
    Plan.types ⟨ret.nodes, inputs, root⟩ idx = (ret.columnsOf idx).map OutputColumn.type := by
  have hnode := List.getElem?_eq_getElem hlt
  obtain ⟨required, hok⟩ := h.nodeOk hnode
  unfold Plan.types
  rw [hnode]
  exact hok.types

/-- The columns of a loaded table. -/
theorem PlanOf.scan_types (likeMatch : List UInt8 → List UInt8 → Bool)
    (base : String → List (List Data)) {idx inputId : Nat} {node : PlanNode}
    (hnode : ret.nodes[idx]? = some node) (hdata : node.data = .scan inputId) :
    ∃ t, (ret.keptTables likeMatch base)[inputId]? = some t ∧
      ∀ attr ∈ node.outputAttrs, t.types[attr.1]? = some attr.2 := by
  have hscan := h.isScan hnode hdata
  obtain ⟨⟨entity, filter⟩, hinput⟩ : ∃ input, ret.inputs[inputId]? = some input :=
    ⟨_, List.getElem?_eq_getElem hscan.input⟩
  have hentity := h.inputs _ (List.mem_of_getElem? hinput)
  obtain ⟨attributes, first, hnumbers⟩ := h.scopeSound.numbers entity hentity
  refine ⟨_, by rw [Pipeline.keptTables, List.getElem?_map, hinput]; rfl, fun attr hattr => ?_⟩
  have hattrs := h.outputAttrs hnode hscan.columnsOf attr hattr
  unfold Pipeline.inputColumns at hattrs
  rw [hinput] at hattrs
  simp only [hnumbers.schema, tableColumns, List.getElem?_map, Option.map_map] at hattrs
  simp only [columnTypes, hnumbers.schema, Option.getD_some, List.getElem?_map]
  exact hattrs

variable {likeMatch : List UInt8 → List UInt8 → Bool} {base : String → List (List Data)}
  {inputs : List ColumnarTable}
  (hinputs : List.Forall₂ TableWritten (ret.keptTables likeMatch base) inputs)

theorem PlanOf.typed (hans : sql.Answerable query) :
    Plan.Typed ⟨ret.nodes, inputs, root⟩ (ret.keptTables likeMatch base) where
  known := by
    intro node hmem attr hattr
    obtain ⟨idx, hnode⟩ := List.mem_iff_getElem?.mp hmem
    obtain ⟨required, hok⟩ := h.nodeOk hnode
    have htype := List.mem_map_of_mem (f := Prod.snd) hattr
    rw [hok.types] at htype
    obtain ⟨col, hcol, htype⟩ := List.mem_map.mp htype
    obtain ⟨attributes, hattributes, hin⟩ :=
      h.inSchema (List.getElem?_eq_some_iff.mp hnode).1 col hcol
    rw [← htype]
    exact attributesMap_type hattributes _ hin
  scan := by
    intro node hmem inputId t hdata ht attr hattr
    obtain ⟨idx, hnode⟩ := List.mem_iff_getElem?.mp hmem
    obtain ⟨t', ht', htypes⟩ := h.scan_types likeMatch base hnode hdata
    obtain rfl : t' = t := Option.some.inj (ht'.symm.trans ht)
    exact htypes attr hattr
  join := by
    intro node hmem l r a b hdata
    obtain ⟨idx, hnode⟩ := List.mem_iff_getElem?.mp hmem
    obtain ⟨leftCol, rightCol, hjoin⟩ := h.isJoin hnode hdata
    obtain ⟨hl, hr⟩ := h.join_int32 hans hjoin
    rw [h.types_eq (hjoin.left_lt.trans hjoin.lt), h.types_eq (hjoin.right_lt.trans hjoin.lt),
      List.getElem?_map, List.getElem?_map, hjoin.left_column, hjoin.right_column,
      Option.map_some, Option.map_some, hl, hr]
    refine ⟨rfl, rfl, fun attr hattr => ?_⟩
    have hattrs := h.outputAttrs hnode hjoin.columnsOf attr hattr
    rwa [← List.map_append, List.getElem?_map]

include hinputs in
theorem PlanOf.wellFormed : Plan.WellFormed ⟨ret.nodes, inputs, root⟩ where
  root := h.root_lt
  scan := by
    intro idx node inputId hnode hdata
    obtain ⟨t, ht, htypes⟩ := h.scan_types likeMatch base hnode hdata
    obtain ⟨hlt, hget⟩ := List.getElem?_eq_some_iff.mp ht
    have hlt' : inputId < inputs.length := hinputs.length_eq ▸ hlt
    have hwritten := List.Forall₂.get hinputs hlt hlt'
    simp only [List.get_eq_getElem, hget] at hwritten
    refine ⟨_, List.getElem?_eq_getElem hlt', fun a ha => ?_⟩
    obtain ⟨attr, hattr, rfl⟩ := List.mem_map.mp ha
    obtain ⟨column, hcolumn, -⟩ := hwritten.column attr.1 attr.2 (htypes attr hattr)
    exact (List.getElem?_eq_some_iff.mp hcolumn).1
  join := by
    intro idx node l r a b hnode hdata
    obtain ⟨leftCol, rightCol, hjoin⟩ := h.isJoin hnode hdata
    have hwidth : ∀ child < ret.nodes.length, Plan.width ⟨ret.nodes, inputs, root⟩ child =
        (ret.columnsOf child).length := fun child hchild => by
      rw [← Plan.length_types, h.types_eq hchild, List.length_map]
    rw [hwidth l (hjoin.left_lt.trans hjoin.lt), hwidth r (hjoin.right_lt.trans hjoin.lt)]
    refine ⟨hjoin.left_lt, hjoin.right_lt, (List.getElem?_eq_some_iff.mp hjoin.left_column).1,
      (List.getElem?_eq_some_iff.mp hjoin.right_column).1, fun c hc => ?_⟩
    obtain ⟨attr, hattr, rfl⟩ := List.mem_map.mp hc
    have hattrs := h.outputAttrs hnode hjoin.columnsOf attr hattr
    obtain ⟨col, hcol, -⟩ := Option.map_eq_some_iff.mp hattrs
    rw [← List.length_append]
    exact (List.getElem?_eq_some_iff.mp hcol).1

end Plan

/-! ## The result of a query -/

/-- One of the sides of each join is small enough to make a table for. -/
def Pipeline.BuildSidesFit (ret : Pipeline) (tables : List Table) : Prop :=
  ∀ (idx : Nat) (node : PlanNode) (l r a b : Nat), ret.nodes[idx]? = some node →
    node.data = .join l r a b →
      min (evalNode Data.getInt32 (tableRows tables) ret.nodes l).length
        (evalNode Data.getInt32 (tableRows tables) ret.nodes r).length < 2 ^ 30

/-- The types of the columns that a query returns. -/
theorem QueryPlan.resultTypes {columnToTables : String → Option (List String)} {query : Query}
    {sql : ParsedSQL} {ret : Pipeline} {root : Nat}
    (h : QueryPlan columnToTables query sql ret root) :
    List.Forall₂ (fun attr type =>
        sql.scope.columnType (sql.scope.number attr.1 attr.2) = some type)
      sql.outputAttrs ((ret.columnsOf root).map OutputColumn.type) := by
  have hcolumns := h.nodes.columns_entities h.valid root h.root_lt
  have hnames := h.names
  generalize ret.columnsOf root = columns at hcolumns hnames
  rw [List.forall₂_map_right_iff]
  generalize sql.outputAttrs = attrs at hnames ⊢
  induction hnames with
  | nil => exact .nil
  | @cons col attr columns attrs hname _ ih =>
    rw [List.forall_mem_cons] at hcolumns
    refine .cons ?_ (ih hcolumns.2)
    obtain ⟨entity, column⟩ := attr
    obtain ⟨rfl, rfl, attributes, hattributes, hattr⟩ := hname
    exact h.scopeSound.columnType_number (h.entities.mem_iff.mp hcolumns.1) hattributes hattr

theorem tableRows_eq (tables : List Table) : tableRows tables =
    fun inputId attrs => ((tables[inputId]?.map Table.data).getD []).map (project attrs) := by
  funext inputId attrs
  unfold tableRows
  cases tables[inputId]? <;> rfl

/-- The table is decoded to the rows of the answer, with the types of the selected columns. -/
structure Query.Answered (query : Query) (sql : ParsedSQL)
    (columnToTables : String → Option (List String))
    (likeMatch : List UInt8 → List UInt8 → Bool) (base : String → List (List Data))
    (table : ColumnarTable) (result : Table) : Prop where
  decode : fromColumnar table = .ok result
  rows : result.data.Perm (query.answer sql.scope columnToTables likeMatch base)
  types : List.Forall₂ (fun attr type =>
    sql.scope.columnType (sql.scope.number attr.1 attr.2) = some type) sql.outputAttrs result.types

section Answered

variable {columnToTables : String → Option (List String)} {query : Query} {sql : ParsedSQL}
  {ret : Pipeline} {root : Nat} (h : QueryPlan columnToTables query sql ret root)
include h

theorem QueryPlan.schema {entity : TableEntity} (hentity : entity ∈ sql.scope.entities) :
    ∃ attributes, attributesMap entity.table = some attributes ∧
      columnTypes entity.table = attributes.map Attribute.type := by
  obtain ⟨attributes, first, hnumbers⟩ := h.scopeSound.numbers entity hentity
  exact ⟨attributes, hnumbers.schema, by rw [columnTypes, hnumbers.schema, Option.getD_some]⟩

variable (hans : sql.Answerable query)
include hans

/-- The scans of a plan over files that can be read. -/
theorem QueryPlan.scanReadable {stod : Stod} {files : String → Option (List (List UInt8))}
    {base : String → List (List Data)} (hfiles : ∀ entity ∈ sql.scope.entities,
      TableFile stod files entity.table (base entity.table))
    {input : TableEntity × Option Filter} (hinput : input ∈ ret.inputs) :
    ScanReadable stod files (base input.1.table) input := by
  have hentity := h.inputs input hinput
  obtain ⟨attributes, hattributes, htypes⟩ := h.schema hentity
  refine ⟨hfiles input.1 hentity, ?_, fun f hf => ?_⟩
  · have hne : attributes ≠ [] := attributesMap_forall (P := (· ≠ [])) (by decide) hattributes
    simpa [htypes] using hne
  · obtain ⟨stmt, attributes', rfl, hattributes', htyped⟩ :=
      hans.filters input.1 hentity f (by rw [← h.filters input hinput, hf])
    obtain rfl := Option.some.inj (hattributes'.symm.trans hattributes)
    exact ⟨stmt, rfl, htypes ▸ htyped⟩

/-- On inputs with the rows that the filters keep, the plan is executed to the answer. -/
theorem QueryPlan.execute_answered {likeMatch : List UInt8 → List UInt8 → Bool}
    {base : String → List (List Data)} {inputs : List ColumnarTable}
    (hwritten : List.Forall₂ TableWritten (ret.keptTables likeMatch base) inputs)
    (hrows : ∀ entity ∈ sql.scope.entities,
      (⟨base entity.table, columnTypes entity.table⟩ : Table).WellTyped)
    (hsize : ret.BuildSidesFit (ret.keptTables likeMatch base))
    (hstrings : Plan.StringsFound ⟨ret.nodes, inputs, root⟩ (ret.keptTables likeMatch base))
    {numThreads : Nat} (hT : 0 < numThreads) (env : List Bool → NodeEnv)
    (fresh : Nat → Nat → Nat → Page) (global : GlobalAllocator) :
    ∃ table global' result,
      execute ⟨ret.nodes, inputs, root⟩ numThreads env fresh global = .ok (table, global') ∧
      query.Answered sql columnToTables likeMatch base table result := by
  have htyped : Plan.Typed ⟨ret.nodes, inputs, root⟩ (ret.keptTables likeMatch base) :=
    h.typed hans
  have hwell := h.wellFormed hwritten
  have hroot : ret.nodes[root]? = some (ret.nodes.get ⟨root, h.root_lt⟩) :=
    List.getElem?_eq_getElem h.root_lt
  have htypes : Plan.types ⟨ret.nodes, inputs, root⟩ root = _ := h.types_eq h.root_lt
  unfold Plan.types at htypes
  simp only [hroot] at htypes
  have hne : (ret.nodes.get ⟨root, h.root_lt⟩).outputAttrs ≠ [] := by
    intro hnil
    have hlen := congrArg List.length htypes
    rw [hnil, List.length_map, List.length_map, h.names.length_eq,
      ← h.selected.length_eq] at hlen
    exact hans.selects (List.length_eq_zero_iff.mp hlen.symm)
  obtain ⟨table, global', result, hexecute, hdecode, hperm, -, hresult⟩ := hwell.execute_cells
    (htyped.inputsScan hwritten hstrings) (htyped.buildsFit hwell hwritten hstrings hsize)
    (htyped.related hwell hwritten hstrings root) hroot hne
    (htyped.known _ (List.mem_of_getElem? hroot)) hT env fresh global
  refine ⟨table, global', result, hexecute, hdecode, hperm.trans ?_, ?_⟩
  · unfold Plan.tableEval
    rw [tableRows_eq]
    refine h.rows_perm hans (fun entity hentity attributes hattributes row hrow => ?_)
      fun inputId entity filter hinput => ?_
    · obtain ⟨attributes', hattributes', htypes⟩ := h.schema hentity
      obtain rfl := Option.some.inj (hattributes'.symm.trans hattributes)
      unfold HasTypes
      rw [← htypes]
      exact hrows entity hentity row hrow
    · simp only [Pipeline.keptTables, List.getElem?_map, hinput, Option.map_some, Option.getD_some]
  · rw [hresult, htypes]
    exact h.resultTypes

end Answered

section Answer

variable {n : Nat} (hn : 0 < n) {numThreads : Nat} (hT : 0 < numThreads)
  (likeMatch : List UInt8 → List UInt8 → Bool) (stod : Stod)
  (files : String → Option (List (List UInt8))) (columnToTables : String → Option (List String))
  (before : List (QueryCall × RunEnv)) {state : RunState}
  (hbefore : runs n likeMatch stod files numThreads columnToTables before {} = .ok state)
  (call : QueryCall) (env : RunEnv) {sql : ParsedSQL} {ret : Pipeline} {root : Nat}
  (hparse : parseSQL columnToTables env.parse call.query = .ok sql)
  (hplan : loadJoinPipeline planOnly sql env.order call.plan () = .ok ((ret, root), ()))
  (honce : (call.plan.entities sql.scope).Perm sql.scope.entities)
  (hans : sql.Answerable call.query) {base : String → List (List Data)}
  (hfiles : ∀ entity ∈ sql.scope.entities, TableFile stod files entity.table (base entity.table))
  (hsize : ret.BuildSidesFit (ret.keptTables likeMatch base))
include hn hT hbefore hparse hplan honce hans hfiles hsize

/-- The tables of the plan are loaded, and if the strings of its scans are found it is executed. -/
theorem QueryCall.run_answered :
    ∃ inputs caches, loadJoinPipeline (csvLoader n likeMatch stod files env.load) sql env.order
        call.plan ([], state.caches) = .ok ((ret, root), inputs, caches) ∧
      (Plan.StringsFound ⟨ret.nodes, inputs, root⟩ (ret.keptTables likeMatch base) →
        ∃ table state' result,
          call.run n likeMatch stod files numThreads columnToTables env state =
            .ok (table, state') ∧
          call.query.Answered sql columnToTables likeMatch base table result) := by
  have hquery := loadJoinPipeline_queryPlan hparse hplan honce
  obtain ⟨disk, hdisk⟩ := exists_disk files
  obtain ⟨past, hvalid⟩ := Caches.Valid.runs hdisk hbefore
  obtain ⟨inputs, caches, hinputs, hwritten⟩ := hvalid.loadAll_ok hn hdisk ret.inputs
    (fun _ hinput => hquery.scanReadable hans hfiles hinput) env.load 0 []
  rw [List.nil_append] at hinputs
  have hload := (loadJoinPipeline_reload (csvLoader n likeMatch stod files env.load) hplan).2
    _ _ hinputs
  refine ⟨inputs, caches, hload, fun hstrings => ?_⟩
  obtain ⟨table, global', result, hexecute, hanswered⟩ := hquery.execute_answered hans hwritten
    (fun entity hentity => (hfiles entity hentity).wellTyped) hsize hstrings hT env.node env.fresh
    state.global
  refine ⟨table, ⟨caches, global'⟩, result, ?_, hanswered⟩
  unfold QueryCall.run
  rw [hparse, ok_bind, hload, ok_bind]
  simp only [hexecute, ok_bind]

/-- Whatever queries were run before, and whatever the threads do, a query whose plan scans each of
its tables once is answered: its tables are loaded, and if the strings of its scans are found the
result is decoded to the rows of its answer, with the types of the selected columns. -/
theorem QueryCall.run_answer :
    ∃ inputs caches, loadJoinPipeline (csvLoader n likeMatch stod files env.load) sql env.order
        call.plan ([], state.caches) = .ok ((ret, root), inputs, caches) ∧
      (Plan.StringsFound ⟨ret.nodes, inputs, root⟩ (ret.keptTables likeMatch base) →
        ∃ table state' result,
          call.run n likeMatch stod files numThreads columnToTables env state =
            .ok (table, state') ∧
          fromColumnar table = .ok result ∧
          result.data.Perm (call.query.answer sql.scope columnToTables likeMatch base) ∧
          List.Forall₂ (fun attr type =>
              sql.scope.columnType (sql.scope.number attr.1 attr.2) = some type)
            sql.outputAttrs result.types) := by
  obtain ⟨inputs, caches, hload, hrun⟩ := run_answered hn hT likeMatch stod files columnToTables
    before hbefore call env hparse hplan honce hans hfiles hsize
  refine ⟨inputs, caches, hload, fun hstrings => ?_⟩
  obtain ⟨table, state', result, htable, hanswered⟩ := hrun hstrings
  exact ⟨table, state', result, htable, hanswered.decode, hanswered.rows, hanswered.types⟩

end Answer

/-! ## Keywords of a link type -/

/-- `SELECT k.id FROM keyword AS k, link_type AS l WHERE k.id = l.id AND l.link = 'x'` -/
def linkedKeyword : Query where
  selectList := [.columnRef ⟨some "k", "id"⟩]
  fromTable := [("keyword", some "k"), ("link_type", some "l")]
  whereClause := .and keywordId
    (.compare .equals (.columnRef ⟨some "l", "link"⟩) (.literalString [120]))

/-- `keyword.csv` has the lines `1,a,` and `2,b,`, and `link_type.csv` the lines `1,x` and `2,y`. -/
def linkFiles (path : String) : Option (List (List UInt8)) :=
  if path = "imdb/keyword.csv" then some [[49, 44, 97, 44, 10, 50], [44, 98, 44, 10]]
  else if path = "imdb/link_type.csv" then some [[49, 44, 120, 10, 50, 44, 121, 10]]
  else none

def linkRows (table : String) : List (List Data) :=
  if table = "keyword" then
    [[.int32 1, .varchar [97], .null], [.int32 2, .varchar [98], .null]]
  else [[.int32 1, .varchar [120]], [.int32 2, .varchar [121]]]

theorem linkFiles_keyword :
    TableFile (fun _ => none) linkFiles "keyword" (linkRows "keyword") := by
  have hfile : linkFiles (csvPath "keyword") =
      some [[49, 44, 97, 44, 10, 50], [44, 98, 44, 10]] := rfl
  have hrecords : recordsOf [49, 44, 97, 44, 10, 50, 44, 98, 44, 10] =
      ([[[49], [97], []], [[50], [98], []]], true) := by decide
  exact .of_records hfile (by decide) (by decide) hrecords (by decide) (by decide)

theorem linkFiles_link :
    TableFile (fun _ => none) linkFiles "link_type" (linkRows "link_type") := by
  have hfile : linkFiles (csvPath "link_type") =
      some [[49, 44, 120, 10, 50, 44, 121, 10]] := rfl
  have hrecords : recordsOf [49, 44, 120, 10, 50, 44, 121, 10] =
      ([[[49], [120]], [[50], [121]]], true) := by decide
  exact .of_records hfile (by decide) (by decide) hrecords (by decide) (by decide)

def linkEnv (join : JoinEnv) : RunEnv where
  parse := parseInOrder
  order := inOrder Edge
  load := fun _ => ⟨fun _ => [1, 0], [1], fun _ _ => Buf.zero 8192, 0⟩
  node := fun _ => ⟨join, fun _ _ _ => 7⟩
  fresh := fun _ _ _ => Buf.zero 8192

/-- The nodes of its plan: scans of the link types and of the keywords, and their join. -/
def linkNodes : List PlanNode :=
  [⟨.scan 0, [(0, .int32)]⟩, ⟨.scan 1, [(0, .int32)]⟩, ⟨.join 0 1 0 0, [(1, .int32)]⟩]

theorem linkNodes_int32 : ∀ node ∈ linkNodes, ∀ attr ∈ node.outputAttrs, attr.2 = .int32 := by
  simp [linkNodes]

theorem linkNodes_join {idx l r a b : Nat} {node : PlanNode} (hnode : linkNodes[idx]? = some node)
    (hdata : node.data = .join l r a b) : l = 0 := by
  rcases idx with _ | _ | _ | idx
  · obtain rfl := Option.some.inj hnode
    cases hdata
  · obtain rfl := Option.some.inj hnode
    cases hdata
  · obtain rfl := Option.some.inj hnode
    cases hdata
    rfl
  · simp [linkNodes] at hnode

theorem linkedKeyword_answerable {sql : ParsedSQL}
    (hparse : parseSQL (fun _ => none) parseInOrder linkedKeyword = .ok sql) :
    sql.Answerable linkedKeyword := by
  have hgraph : sql.joinGraph = emplace (emplace (fun _ => none)
      (⟨"keyword", 0⟩, ⟨"link_type", 0⟩) ("id", "id")) (⟨"link_type", 0⟩, ⟨"keyword", 0⟩)
        ("id", "id") := by
    obtain rfl := Except.ok.inj hparse
    rfl
  obtain rfl := Except.ok.inj hparse
  refine ⟨⟨trivial, trivial⟩, by decide, by decide, by decide, by decide, ?_, ?_⟩
  · intro left right columns hedge
    rw [hgraph] at hedge
    rcases emplace_eq_some hedge with hedge | ⟨-, hpair, rfl⟩
    · rcases emplace_eq_some hedge with hedge | ⟨-, hpair, rfl⟩
      · cases hedge
      · obtain ⟨rfl, rfl⟩ := Prod.mk.inj hpair
        decide
    · obtain ⟨rfl, rfl⟩ := Prod.mk.inj hpair
      decide
  · intro entity hentity filter hfilter
    have hentity : entity ∈ [⟨"keyword", 0⟩, ⟨"link_type", 0⟩] := hentity
    rcases List.mem_pair.mp hentity with rfl | rfl
    · cases hfilter
    · obtain rfl := Option.some.inj hfilter
      exact ⟨_, _, rfl, rfl, .varchar, rfl, .inr (.inr ⟨_, rfl⟩)⟩

theorem linkedKeyword_files {sql : ParsedSQL}
    (hentities : sql.scope.entities = [⟨"keyword", 0⟩, ⟨"link_type", 0⟩]) :
    ∀ entity ∈ sql.scope.entities,
      TableFile (fun _ => none) linkFiles entity.table (linkRows entity.table) := by
  rw [hentities]
  intro entity hentity
  rcases List.mem_pair.mp hentity with rfl | rfl
  · exact linkFiles_keyword
  · exact linkFiles_link

theorem linkNodes_fit {ret : Pipeline} (hnodes : ret.nodes = linkNodes) {tables : List Table}
    (hlen : (tableRows tables 0 [0]).length < 2 ^ 30) : ret.BuildSidesFit tables := by
  intro idx node l r a b hnode hdata
  rw [hnodes] at hnode ⊢
  obtain rfl := linkNodes_join hnode hdata
  rw [evalNode_scan (show linkNodes[0]? = some ⟨.scan 0, [(0, .int32)]⟩ from rfl) rfl]
  exact lt_of_le_of_lt (Nat.min_le_left _ _) hlen

/-- None of its scans reads strings. -/
theorem linkNodes_strings {ret : Pipeline} (hnodes : ret.nodes = linkNodes)
    (inputs : List ColumnarTable) (root : Nat) (tables : List Table) :
    Plan.StringsFound ⟨ret.nodes, inputs, root⟩ tables := by
  intro node hnode tableId t input column _ _ _ attr hattr hvarchar
  rw [linkNodes_int32 node (hnodes ▸ hnode) attr hattr] at hvarchar
  cases hvarchar

/-- Its plan with two scans and their join, and what it means over the files. -/
structure LinkedKeywordPlan (sql : ParsedSQL) (ret : Pipeline) (root : Nat) : Prop where
  parse : parseSQL (fun _ => none) parseInOrder linkedKeyword = .ok sql
  plan : loadJoinPipeline planOnly sql (inOrder Edge) linkKeywordPlan () = .ok ((ret, root), ())
  once : (linkKeywordPlan.entities sql.scope).Perm sql.scope.entities
  entities : sql.scope.entities = [⟨"keyword", 0⟩, ⟨"link_type", 0⟩]
  nodes : ret.nodes = linkNodes
  tables : (ret.inputs.map fun input => input.1.table).Nodup
  kept : ret.keptTables (fun _ _ => false) linkRows =
    [⟨[[.int32 1, .varchar [120]]], [.int32, .varchar]⟩,
      ⟨linkRows "keyword", [.int32, .varchar, .varchar]⟩]
  answer : linkedKeyword.answer sql.scope (fun _ => none) (fun _ _ => false) linkRows =
    [[.int32 1]]
  selected : sql.outputAttrs.map (fun attr =>
    sql.scope.columnType (sql.scope.number attr.1 attr.2)) = [some .int32]

theorem exists_linkedKeywordPlan : ∃ sql ret root, LinkedKeywordPlan sql ret root :=
  ⟨_, _, _, rfl, rfl, by decide, rfl, rfl, by decide, rfl, by decide, rfl⟩

theorem LinkedKeywordPlan.sidesFit {sql : ParsedSQL} {ret : Pipeline} {root : Nat}
    (h : LinkedKeywordPlan sql ret root) :
    ret.BuildSidesFit (ret.keptTables (fun _ _ => false) linkRows) :=
  linkNodes_fit h.nodes (by rw [h.kept]; decide)

/-- The query is run twice, and the second time its tables are in the cache. -/
theorem QueryCall.run_answer_linkedKeyword :
    let call : QueryCall := ⟨linkedKeyword, linkKeywordPlan⟩
    let env := linkEnv ⟨⟨4096, by decide, fun _ => ⟨0, 0⟩, [], []⟩, [2, 0, 1]⟩
    ∃ state table state' result,
      runs 2 (fun _ _ => false) (fun _ => none) linkFiles 3 (fun _ => none) [(call, env)] {} =
        .ok state ∧
      call.run 2 (fun _ _ => false) (fun _ => none) linkFiles 3 (fun _ => none) env state =
        .ok (table, state') ∧
      fromColumnar table = .ok result ∧ result.data = [[.int32 1]] := by
  intro call env
  obtain ⟨sql, ret, root, h⟩ := exists_linkedKeywordPlan
  have hrun : ∀ before state,
      runs 2 (fun _ _ => false) (fun _ => none) linkFiles 3 (fun _ => none) before {} =
        .ok state →
      ∃ table state' result,
        call.run 2 (fun _ _ => false) (fun _ => none) linkFiles 3 (fun _ => none) env state =
          .ok (table, state') ∧
        fromColumnar table = .ok result ∧ result.data = [[.int32 1]] := by
    intro before state hbefore
    obtain ⟨inputs, caches, -, hrun⟩ := QueryCall.run_answer (show 0 < 2 by decide)
      (show 0 < 3 by decide) (fun _ _ => false) (fun _ => none) linkFiles (fun _ => none)
      before hbefore call env h.parse h.plan h.once (linkedKeyword_answerable h.parse)
      (linkedKeyword_files h.entities) h.sidesFit
    obtain ⟨table, state', result, htable, hresult, hperm, -⟩ :=
      hrun (linkNodes_strings h.nodes inputs root _)
    have hperm : result.data.Perm (linkedKeyword.answer sql.scope (fun _ => none)
      (fun _ _ => false) linkRows) := hperm
    rw [h.answer] at hperm
    exact ⟨table, state', result, htable, hresult, List.perm_singleton.mp hperm⟩
  obtain ⟨table, state, result, htable, -⟩ := hrun [] {} rfl
  have hbefore : runs 2 (fun _ _ => false) (fun _ => none) linkFiles 3 (fun _ => none)
      [(call, env)] {} = .ok state := by
    unfold runs
    rw [List.foldlM_cons, htable]
    rfl
  obtain ⟨table', state', result', htable', hresult'⟩ := hrun [(call, env)] state hbefore
  exact ⟨state, table', state', result', hbefore, htable', hresult'⟩

end HashJoin
