import HashJoin.ExecuteProof
import HashJoin.Rescan

/-!
# Plans over INT32 columns

From the tables that the inputs of a plan were made of to the table that is decoded from its
result, and when that result can be scanned again.
-/

namespace HashJoin

open Bytes Chunks Relational

@[simp] theorem Value.cell_erase (v : Value) : v.erase.cell = v.cell := by
  rw [cell, cell, key_erase]

@[simp] theorem Value.isInt32_erase (v : Value) : v.erase.IsInt32 ↔ v.IsInt32 := by
  rw [IsInt32, IsInt32, status_erase]

/-! ## The tables -/

/-- A scan of the columns of a table. -/
def tableRows (tables : List Table) (tableId : Nat) (attrs : List Nat) : List (List Data) :=
  match tables[tableId]? with
  | none => []
  | some t => t.data.map (project attrs)

/-- The inputs are made of the tables by `to_columnar`. -/
def InputsOf (tables : List Table) (inputs : List ColumnarTable) : Prop :=
  List.Forall₂ (fun t input => t.WellTyped ∧ ∃ fresh, toColumnar fresh t = .ok input) tables inputs

/-- The rows that a node of a plan over tables of `INT32` columns means. -/
def Plan.tableEval (plan : Plan) (tables : List Table) (nodeIdx : Nat) : List (List Data) :=
  evalNode Data.getInt32 (tableRows tables) plan.nodes nodeIdx

/-- All attributes that a plan refers to are `INT32`. -/
structure Plan.AllInt32 (plan : Plan) (tables : List Table) : Prop where
  attrs : ∀ node ∈ plan.nodes, ∀ attr ∈ node.outputAttrs, attr.2 = .int32
  scanned : ∀ node ∈ plan.nodes, ∀ (tableId : Nat) (t : Table), node.data = .scan tableId →
    tables[tableId]? = some t → ∀ a ∈ node.attrs, t.types[a]? = some .int32

/-- A scan of an `INT32` column that `to_columnar` has written. -/
theorem scan_table {fresh : Nat → Nat → Page} {t : Table} {table : ColumnarTable}
    (ht : t.WellTyped) (htable : toColumnar fresh t = .ok table) {a : Nat}
    (htype : t.types[a]? = some .int32) : ∃ column, table.columns[a]? = some column ∧
      ∀ tableId junk, (buildColumnInserter tableId a column column.type junk).Valid ∧
        (buildColumnInserter tableId a column column.type junk).numRows = table.numRows ∧
        (buildColumnInserter tableId a column column.type junk).values.map Value.cell =
          t.column a ∧
        ∀ v ∈ (buildColumnInserter tableId a column column.type junk).values, v.IsInt32 := by
  obtain ⟨hnum, -, hcolumns⟩ := columns_of_toColumnar htable
  obtain ⟨pages, hget, -⟩ := hcolumns a .int32 htype
  have hvalues : ∀ v ∈ t.column a, v = .null ∨ ∃ x, v = Data.int32 x := by
    intro v hv
    obtain ⟨record, hrecord, rfl⟩ := List.mem_map.mp hv
    obtain ⟨ha, htype⟩ := List.getElem?_eq_some_iff.mp htype
    have hall := ht record hrecord
    have ha' : a < record.length := hall.length_eq ▸ ha
    have hcell := hall.get ha' ha
    simp only [List.get_eq_getElem, htype] at hcell
    rw [List.getD_eq_getElem?_getD, List.getElem?_eq_getElem ha', Option.getD_some]
    cases hv : record[a] with
    | null => exact .inl rfl
    | int32 x => exact .inr ⟨x, rfl⟩
    | int64 x => simp [hv, Data.HasType] at hcell
    | fp64 x => simp [hv, Data.HasType] at hcell
    | varchar x => simp [hv, Data.HasType] at hcell
  obtain ⟨rows, hrows⟩ := exists_rows Data.int32 hvalues
  obtain ⟨pages', hpages', hfixed⟩ :=
    (Written.toColumnar htable htype hrows hget).fixedColumn
  obtain ⟨chunks, hchunks, hint32, huni⟩ := hfixed.int32
  rw [hpages'] at hget
  refine ⟨_, hget, fun tableId junk => ?_⟩
  obtain ⟨hvalid, hkeys, hint⟩ :=
    buildColumnInserter_int32 tableId a junk hint32 fun hnone => huni (hchunks ▸ hnone)
  have hcells := congrArg (List.map (cellOf Data.int32)) hkeys
  rw [List.map_map, ← hchunks, ← hrows] at hcells
  refine ⟨hvalid, ?_, hcells, hint⟩
  have hlen := congrArg List.length hcells
  rw [List.length_map, Table.column, List.length_map] at hlen
  rw [hvalid.numRows, hlen, hnum]

section

variable {plan : Plan} {tables : List Table}

/-- The table that a scan node reads, and the input that it was made into. -/
theorem InputsOf.table (h : InputsOf tables plan.inputs) {tableId : Nat} {input : ColumnarTable}
    (hinput : plan.inputs[tableId]? = some input) : ∃ t fresh, tables[tableId]? = some t ∧
      t.WellTyped ∧ toColumnar fresh t = .ok input := by
  obtain ⟨hi, rfl⟩ := List.getElem?_eq_some_iff.mp hinput
  have hi' : tableId < tables.length := h.length_eq ▸ hi
  obtain ⟨ht, fresh, hfresh⟩ := List.Forall₂.get h hi' hi
  exact ⟨_, fresh, List.getElem?_eq_getElem hi', ht, hfresh⟩

/-- The inputs are such that the executor can scan them. -/
theorem Plan.AllInt32.inputsScan (h : plan.AllInt32 tables)
    (hinputs : InputsOf tables plan.inputs) : plan.InputsScan := by
  intro idx node tableId input hnode hdata hinput a ha column hcolumn junk
  obtain ⟨t, fresh, ht, hwell, htable⟩ := hinputs.table hinput
  have htype := h.scanned node (List.mem_of_getElem? hnode) tableId t hdata ht a ha
  obtain ⟨column', hcolumn', hscan⟩ := scan_table hwell htable htype
  have heq : column' = column := Option.some.inj (hcolumn'.symm.trans hcolumn)
  rw [heq] at hscan
  obtain ⟨hvalid, hrows, -⟩ := hscan tableId junk
  exact ⟨hvalid, hrows⟩

/-- What is scanned are the columns of the table. -/
theorem Plan.AllInt32.scannedRows (h : plan.AllInt32 tables) (hplan : plan.WellFormed)
    (hinputs : InputsOf tables plan.inputs) {idx tableId : Nat} {node : PlanNode}
    (hnode : plan.nodes[idx]? = some node) (hdata : node.data = .scan tableId) :
    tableRows tables tableId node.attrs =
        (scannedRows plan.inputs tableId node.attrs).map (List.map Value.cell) ∧
      ∀ row ∈ scannedRows plan.inputs tableId node.attrs, ∀ v ∈ row, v.IsInt32 := by
  obtain ⟨input, hinput, -⟩ := hplan.scan idx node tableId hnode hdata
  obtain ⟨t, fresh, ht, hwell, htable⟩ := hinputs.table hinput
  have htypes := h.scanned node (List.mem_of_getElem? hnode) tableId t hdata ht
  have hcolumn : ∀ a ∈ node.attrs, (scannedColumn input tableId a).map Value.cell = t.column a ∧
      ∀ v ∈ scannedColumn input tableId a, v.IsInt32 := by
    intro a ha
    obtain ⟨column, hcolumn, hscan⟩ := scan_table hwell htable (htypes a ha)
    obtain ⟨-, -, hcells, hint⟩ := hscan tableId fun _ _ => 0
    unfold scannedColumn
    rw [hcolumn]
    refine ⟨?_, fun v hv => ?_⟩
    · simp only [List.map_map]
      rw [← hcells]
      exact List.map_congr_left fun v _ => v.cell_erase
    · obtain ⟨w, hw, rfl⟩ := List.mem_map.mp hv
      exact w.isInt32_erase.mpr (hint w hw)
  have hrows : HashJoin.scannedRows plan.inputs tableId node.attrs =
      transpose input.numRows (node.attrs.map (scannedColumn input tableId)) := by
    unfold HashJoin.scannedRows
    rw [hinput]
  rw [hrows]
  refine ⟨?_, fun row hrow v hv => ?_⟩
  · have hwidth : ∀ record ∈ t.data, ∀ a ∈ node.attrs, a < record.length := by
      intro record hrecord a ha
      rw [(hwell record hrecord).length_eq]
      exact (List.getElem?_eq_some_iff.mp (htypes a ha)).1
    unfold tableRows
    rw [ht]
    show t.data.map (project node.attrs) = _
    rw [map_project_eq_transpose hwidth .null, ← transpose_map, List.map_map,
      (columns_of_toColumnar htable).1]
    exact congrArg _ (List.map_congr_left fun a ha => (hcolumn a ha).1.symm)
  · obtain ⟨i, -, rfl⟩ := List.mem_map.mp hrow
    obtain ⟨values, hvalues, hv⟩ := List.mem_filterMap.mp hv
    obtain ⟨a, ha, rfl⟩ := List.mem_map.mp hvalues
    exact (hcolumn a ha).2 v (List.mem_of_getElem? hv)

/-- The rows of a node in terms of the tables. -/
theorem Plan.AllInt32.rows (h : plan.AllInt32 tables) (hplan : plan.WellFormed)
    (hinputs : InputsOf tables plan.inputs) (nodeIdx : Nat) :
    plan.tableEval tables nodeIdx = (plan.rows nodeIdx).map (List.map Value.cell) ∧
      ∀ row ∈ plan.rows nodeIdx, ∀ v ∈ row, v.IsInt32 := by
  have hkey : Data.getInt32 ∘ Value.cell = Value.key := by
    funext v
    rw [Function.comp_apply, Value.cell]
    cases v.key <;> rfl
  constructor
  · have hmap : plan.tableEval tables nodeIdx =
        (evalNode (Data.getInt32 ∘ Value.cell) (HashJoin.scannedRows plan.inputs) plan.nodes
          nodeIdx).map (List.map Value.cell) :=
      evalNode_map Value.cell
        (fun idx node tableId hnode hdata => (h.scannedRows hplan hinputs hnode hdata).1) nodeIdx
    rwa [hkey] at hmap
  · exact evalNode_forall (fun idx node tableId hnode hdata =>
      (h.scannedRows hplan hinputs hnode hdata).2) nodeIdx

end

/-! ## The rows of a result -/

section

variable {plan : Plan} {idx n : Nat} {results : List ColumnT}

theorem Plan.IsResult.isInt32 (h : plan.IsResult idx n results)
    (hint : ∀ row ∈ plan.rows idx, ∀ v ∈ row, v.IsInt32) :
    ∀ col ∈ results, ∀ v ∈ col.values, v.IsInt32 := by
  intro col hcol v hv
  have hlen := h.aligned.length_values _ (List.mem_map_of_mem hcol)
  obtain ⟨row, hrow, hv⟩ := exists_mem_transpose (List.mem_map_of_mem hcol) hlen hv
  have hmem := h.rows.mem_iff.mp (List.mem_map_of_mem (f := List.map Value.erase) hrow)
  exact v.isInt32_erase.mp (hint _ hmem _ (List.mem_map_of_mem hv))

/-- A column has a NULL when a row of the node has one there. -/
theorem Plan.IsResult.exists_null_iff (h : plan.IsResult idx n results) {c : Nat} {col : ColumnT}
    (hcol : results[c]? = some col) : (∃ v ∈ col.values, v.isNull = true) ↔
      ∃ row ∈ plan.rows idx, ∃ v, row[c]? = some v ∧ v.isNull = true := by
  have hlen := h.aligned.length_values _ (List.mem_map_of_mem (List.mem_of_getElem? hcol))
  have hrow : ∀ i < n, (rowAt results i)[c]? = col.values[i]? := fun i hi => by
    rw [h.aligned.getElem?_rowAt hi, hcol, Option.bind_some]
  constructor
  · rintro ⟨v, hv, hnull⟩
    obtain ⟨i, hi, rfl⟩ := List.mem_iff_getElem.mp hv
    have hi' : i < n := hlen ▸ hi
    have hmem : rowAt results i ∈ rowsOf n results := List.mem_map_of_mem (List.mem_range.mpr hi')
    refine ⟨_, h.rows.mem_iff.mp (List.mem_map_of_mem hmem), col.values[i].erase, ?_, ?_⟩
    · rw [List.getElem?_map, hrow i hi', List.getElem?_eq_getElem hi]
      rfl
    · rwa [Value.isNull_erase]
  · rintro ⟨row, hmem, v, hv, hnull⟩
    obtain ⟨r, hr, rfl⟩ := List.mem_map.mp (h.rows.mem_iff.mpr hmem)
    obtain ⟨i, hi, rfl⟩ := List.mem_map.mp hr
    rw [List.getElem?_map, ← rowAt, hrow i (List.mem_range.mp hi)] at hv
    obtain ⟨w, hw, rfl⟩ := Option.map_eq_some_iff.mp hv
    exact ⟨w, List.mem_of_getElem? hw, by rwa [Value.isNull_erase] at hnull⟩

/-- The cells of a result, row by row. -/
theorem Plan.IsResult.cells (h : plan.IsResult idx n results) :
    ((List.range n).map fun i =>
      (results.map fun col => col.values.map Value.cell).map fun c => c.getD i .null).Perm
      ((plan.rows idx).map (List.map Value.cell)) := by
  have hlens : ∀ cells ∈ results.map fun col => col.values.map Value.cell, cells.length = n := by
    intro cells hcells
    obtain ⟨col, hcol, rfl⟩ := List.mem_map.mp hcells
    rw [List.length_map]
    exact h.aligned.length_values _ (List.mem_map_of_mem hcol)
  have hcells : (results.map fun col => col.values.map Value.cell) =
      (results.map ColumnT.values).map (List.map Value.cell) := by
    rw [List.map_map]
    rfl
  have herase : (rowsOf n results).map (List.map Value.cell) =
      ((rowsOf n results).map (List.map Value.erase)).map (List.map Value.cell) := by
    rw [List.map_map]
    apply List.map_congr_left
    intro row _
    rw [Function.comp_apply, List.map_map]
    exact List.map_congr_left fun v _ => v.cell_erase.symm
  rw [← transpose_eq_getD hlens, hcells, transpose_map]
  show ((rowsOf n results).map (List.map Value.cell)).Perm _
  rw [herase]
  exact h.rows.map _

end

/-! ## The table of a result -/

/-- What is decoded from the pages of the slices. -/
theorem readColumn_slicePages (fresh : Nat → Nat → Page) {numThreads : Nat} (hT : 0 < numThreads)
    (calls : List (Option Int32)) : readColumn calls.length ⟨.int32, slicePages fresh
      (rowsPerThread calls.length numThreads) numThreads calls⟩ =
        .ok (calls.map (cellOf Data.int32)) := by
  obtain ⟨chunks, hchunks, hpages, -⟩ := slicePages_ok fresh
    (rowsPerThread calls.length numThreads) numThreads calls
  rw [List.take_of_length_le (le_mul_rowsPerThread hT)] at hchunks
  have hread := readColumn_int32 hpages
  rwa [← hchunks] at hread

/-- A result of `INT32` columns can be written, and is decoded to its cells. -/
theorem fromColumnar_materialize {results : List ColumnT} {n : Nat} (hresults : Aligned n results)
    (hint : ∀ col ∈ results, ∀ v ∈ col.values, v.IsInt32) {types : List DataType}
    (hlen : results.length = types.length) (htypes : ∀ type ∈ types, type = .int32)
    (hne : types ≠ []) (inputs : List ColumnarTable) (fresh : Nat → Nat → Nat → Page)
    {numThreads : Nat} (hT : 0 < numThreads) :
    ∃ table, materialize inputs results types fresh numThreads = .ok table ∧ table.numRows = n ∧
      fromColumnar table = .ok ⟨(List.range n).map fun i =>
        (results.map fun col => col.values.map Value.cell).map fun c => c.getD i .null, types⟩ := by
  have hhead : headRows results = n :=
    headRows_eq hresults fun hnil => hne (by simpa [hnil] using hlen.symm)
  have hget : ∀ x ∈ types.zipIdx, results[x.2]? = some (results.getD x.2 {}) ∧ x.1 = .int32 := by
    intro x hx
    have hlt : x.2 < results.length := by
      rw [hlen]
      simpa using List.snd_lt_of_mem_zipIdx hx
    rw [List.getD_eq_getElem?_getD, List.getElem?_eq_getElem hlt]
    exact ⟨rfl, htypes _ (List.fst_mem_of_mem_zipIdx hx)⟩
  have hcol : ∀ x ∈ types.zipIdx, (results.getD x.2 {}).Valid ∧ (results.getD x.2 {}).numRows = n ∧
      ∀ v ∈ (results.getD x.2 {}).values, v.IsInt32 := fun x hx => by
    have hmem := List.mem_of_getElem? (hget x hx).1
    exact ⟨(hresults _ hmem).1, (hresults _ hmem).2, hint _ hmem⟩
  have hcolumns := mapM_eq_map (l := types.zipIdx) (f := fun x => do
      let col ← at? results x.2
      materializeColumn inputs x.1 (fresh x.2) numThreads (headRows results) col)
    (g := fun x => (⟨.int32, slicePages (fresh x.2) (rowsPerThread n numThreads) numThreads
      ((results.getD x.2 {}).values.map int32Call)⟩ : Column)) fun x hx => by
    obtain ⟨hres, htype⟩ := hget x hx
    obtain ⟨hvalid, hrows, -⟩ := hcol x hx
    have hwrite := materializeColumn_valid hvalid inputs (fresh x.2) numThreads
    rw [hrows] at hwrite
    rw [at?_eq_ok hres, ok_bind, htype, hhead, hwrite]
  have hread : ((types.zipIdx.map fun x => (⟨.int32, slicePages (fresh x.2)
        (rowsPerThread n numThreads) numThreads
        ((results.getD x.2 {}).values.map int32Call)⟩ : Column)).mapM (readColumn n)) =
      .ok (types.zipIdx.map fun x => (results.getD x.2 {}).values.map Value.cell) := by
    rw [List.mapM_map]
    apply mapM_eq_map
    intro x hx
    obtain ⟨hvalid, hrows, hints⟩ := hcol x hx
    have hlength : ((results.getD x.2 {}).values.map int32Call).length = n := by
      rw [List.length_map, ← hvalid.numRows, hrows]
    have hread := readColumn_slicePages (fresh x.2) hT ((results.getD x.2 {}).values.map int32Call)
    rw [hlength, List.map_map] at hread
    rw [Function.comp_apply, hread]
    exact congrArg _ (List.map_congr_left fun v hv => Value.cell_int32Call (hints v hv))
  have hcells : (types.zipIdx.map fun x => (results.getD x.2 {}).values.map Value.cell) =
      results.map fun col => col.values.map Value.cell := by
    apply List.ext_getElem (by simp [hlen])
    intro i hi hi'
    have hi' : i < results.length := by simpa using hi'
    simp [List.getD_eq_getElem?_getD, hi']
  have htypes' : types.zipIdx.map (fun _ => DataType.int32) = types := by
    apply List.ext_getElem (by simp)
    intro i hi hi'
    rw [List.getElem_map, htypes _ (List.getElem_mem hi')]
  refine ⟨_, by rw [materialize_eq, hcolumns, ok_bind], hhead, ?_⟩
  unfold fromColumnar
  simp only [hhead, hread, ok_bind, hcells, List.map_map, Function.comp_def, htypes']

/-! ## Running a plan -/

/-- A plan over `INT32` columns runs to its end. -/
theorem Plan.AllInt32.execute_ok {plan : Plan} {tables : List Table} (hint : plan.AllInt32 tables)
    (hplan : plan.WellFormed) (hinputs : InputsOf tables plan.inputs) {root : PlanNode}
    (hroot : plan.nodes[plan.root]? = some root) (hne : root.outputAttrs ≠ [])
    (hsize : ∀ (idx : Nat) (node : PlanNode) (l r a b : Nat), plan.nodes[idx]? = some node →
      node.data = .join l r a b →
        min (plan.tableEval tables l).length (plan.tableEval tables r).length < 2 ^ 30)
    {numThreads : Nat} (hT : 0 < numThreads) (env : List Bool → NodeEnv)
    (fresh : Nat → Nat → Nat → Page) (global : GlobalAllocator) :
    ∃ results n table global', execute plan numThreads env fresh global = .ok (table, global') ∧
      plan.IsResult plan.root n results ∧ table.numRows = n ∧
      fromColumnar table = .ok ⟨(List.range n).map fun i =>
        (results.map fun col => col.values.map Value.cell).map fun c => c.getD i .null,
          root.outputAttrs.map Prod.snd⟩ := by
  have hrows := fun nodeIdx => hint.rows hplan hinputs nodeIdx
  have hbuilds : plan.BuildsFit := fun idx node l r a b hnode hdata => by
    have hlen := hsize idx node l r a b hnode hdata
    rwa [(hrows l).1, (hrows r).1, List.length_map, List.length_map] at hlen
  obtain ⟨results, global', n, himpl, hresult⟩ :=
    hplan.executeImpl_ok (hint.inputsScan hinputs) hbuilds hT env global hplan.root hplan.root
  have hlen : results.length = (root.outputAttrs.map Prod.snd).length := by
    rw [hresult.length, List.length_map, Plan.width, hroot]
  have htypes : ∀ type ∈ root.outputAttrs.map Prod.snd, type = .int32 := by
    intro type htype
    obtain ⟨attr, hattr, rfl⟩ := List.mem_map.mp htype
    exact hint.attrs root (List.mem_of_getElem? hroot) attr hattr
  obtain ⟨table, hwrite, hnum, hread⟩ := fromColumnar_materialize hresult.aligned
    (hresult.isInt32 (hrows plan.root).2) hlen htypes (by simpa using hne) plan.inputs fresh hT
  refine ⟨results, n, table, global', ?_, hresult, hnum, hread⟩
  unfold execute
  rw [himpl, ok_bind]
  show (at? _ _ >>= _) = _
  rw [at?_eq_ok hroot, ok_bind, hwrite, ok_bind]

/-- Whatever the threads do, the table that is decoded from the result of a plan has the rows that
the plan means, with the types of the root. -/
theorem Plan.execute_int32 {plan : Plan} {tables : List Table} (hplan : plan.WellFormed)
    (hinputs : InputsOf tables plan.inputs) (hint : plan.AllInt32 tables) {root : PlanNode}
    (hroot : plan.nodes[plan.root]? = some root) (hne : root.outputAttrs ≠ [])
    (hsize : ∀ (idx : Nat) (node : PlanNode) (l r a b : Nat), plan.nodes[idx]? = some node →
      node.data = .join l r a b →
        min (plan.tableEval tables l).length (plan.tableEval tables r).length < 2 ^ 30)
    {numThreads : Nat} (hT : 0 < numThreads) (env : List Bool → NodeEnv)
    (fresh : Nat → Nat → Nat → Page) (global : GlobalAllocator) :
    ∃ table global' result, execute plan numThreads env fresh global = .ok (table, global') ∧
      fromColumnar table = .ok result ∧ result.data.Perm (plan.tableEval tables plan.root) ∧
      table.numRows = (plan.tableEval tables plan.root).length ∧
      result.types = root.outputAttrs.map Prod.snd := by
  obtain ⟨results, n, table, global', hexecute, hresult, hnum, hread⟩ :=
    hint.execute_ok hplan hinputs hroot hne hsize hT env fresh global
  have hrows := (hint.rows hplan hinputs plan.root).1
  refine ⟨table, global', _, hexecute, hread, ?_, ?_, rfl⟩
  · rw [hrows]
    exact hresult.cells
  · rw [hrows, List.length_map, hresult.numRows, hnum]

/-- A table of one column with two rows, of which one is NULL. -/
def fiveAndNull : Table := ⟨[[.int32 5], [.null]], [.int32]⟩

/-- The table joined with itself. -/
def selfJoin (input : ColumnarTable) : Plan where
  nodes := [⟨.scan 0, [(0, .int32)]⟩, ⟨.scan 0, [(0, .int32)]⟩,
    ⟨.join 0 1 0 0, [(1, .int32), (0, .int32)]⟩]
  inputs := [input]
  root := 2

theorem selfJoin_nodes {input : ColumnarTable} {idx : Nat} {node : PlanNode}
    (h : (selfJoin input).nodes[idx]? = some node) :
    idx < 2 ∧ node = ⟨.scan 0, [(0, .int32)]⟩ ∨
      idx = 2 ∧ node = ⟨.join 0 1 0 0, [(1, .int32), (0, .int32)]⟩ := by
  rcases idx with _ | _ | _ | idx
  · exact .inl ⟨by decide, (Option.some.inj h).symm⟩
  · exact .inl ⟨by decide, (Option.some.inj h).symm⟩
  · exact .inr ⟨rfl, (Option.some.inj h).symm⟩
  · simp [selfJoin] at h

theorem selfJoin_wellFormed {input : ColumnarTable} (h : input.columns.length = 1) :
    (selfJoin input).WellFormed where
  root := by simp [selfJoin]
  scan idx node tableId hnode hdata := by
    rcases selfJoin_nodes hnode with ⟨-, rfl⟩ | ⟨-, rfl⟩
    · cases hdata
      exact ⟨input, rfl, by simp [PlanNode.attrs, h]⟩
    · cases hdata
  join idx node l r a b hnode hdata := by
    rcases selfJoin_nodes hnode with ⟨-, rfl⟩ | ⟨rfl, rfl⟩
    · cases hdata
    · cases hdata
      simp [PlanNode.attrs, Plan.width, selfJoin]

theorem selfJoin_tableEval (input : ColumnarTable) :
    (selfJoin input).tableEval [fiveAndNull] 2 = [[.int32 5, .int32 5]] := by
  have hscan : ∀ idx, (selfJoin input).nodes[idx]? = some ⟨.scan 0, [(0, .int32)]⟩ →
      evalNode Data.getInt32 (tableRows [fiveAndNull]) (selfJoin input).nodes idx =
        [[.int32 5], [.null]] := fun idx h => by
    rw [evalNode_scan h rfl]
    rfl
  unfold Plan.tableEval
  rw [evalNode_join rfl rfl (by decide) (by decide), hscan 0 rfl, hscan 1 rfl]
  decide

theorem Plan.execute_int32_selfJoin : ∃ input table global' result,
    toColumnar (fun _ _ => Buf.zero 8192) fiveAndNull = .ok input ∧
      execute (selfJoin input) 3 (fun _ => ⟨⟨⟨4096, by decide, fun _ => ⟨0, 0⟩, [], []⟩, [2, 0, 1]⟩,
        fun _ _ _ => 7⟩) (fun _ _ _ => Buf.zero 8192) {} = .ok (table, global') ∧
      fromColumnar table = .ok result ∧ result.data.Perm [[.int32 5, .int32 5]] ∧
      table.numRows = 1 ∧ result.types = [.int32, .int32] := by
  have hwell : fiveAndNull.WellTyped := by simp [fiveAndNull, Table.WellTyped, Data.HasType]
  obtain ⟨columns, hto, hall⟩ := toColumnar_ok (fun _ _ => Buf.zero 8192) hwell
  have hplan : (selfJoin ⟨2, columns⟩).WellFormed := selfJoin_wellFormed hall.length_eq.symm
  have hint : (selfJoin ⟨2, columns⟩).AllInt32 [fiveAndNull] :=
    { attrs := by
        intro node hnode attr hattr
        obtain ⟨idx, hnode⟩ := List.getElem?_of_mem hnode
        rcases selfJoin_nodes hnode with ⟨-, rfl⟩ | ⟨-, rfl⟩
        · rw [List.mem_singleton.mp hattr]
        · rcases List.mem_pair.mp hattr with rfl | rfl <;> rfl
      scanned := by
        intro node hnode tableId t hdata ht a ha
        obtain ⟨idx, hnode⟩ := List.getElem?_of_mem hnode
        rcases selfJoin_nodes hnode with ⟨-, rfl⟩ | ⟨-, rfl⟩
        · cases hdata
          obtain rfl := Option.some.inj ht
          obtain rfl := List.mem_singleton.mp ha
          rfl
        · cases hdata }
  have hsize : ∀ (idx : Nat) (node : PlanNode) (l r a b : Nat),
      (selfJoin ⟨2, columns⟩).nodes[idx]? = some node → node.data = .join l r a b →
        min ((selfJoin ⟨2, columns⟩).tableEval [fiveAndNull] l).length
          ((selfJoin ⟨2, columns⟩).tableEval [fiveAndNull] r).length < 2 ^ 30 := by
    intro idx node l r a b hnode hdata
    rcases selfJoin_nodes hnode with ⟨-, rfl⟩ | ⟨-, rfl⟩
    · cases hdata
    · cases hdata
      have hscan : (selfJoin ⟨2, columns⟩).nodes[0]? = some ⟨.scan 0, [(0, .int32)]⟩ := rfl
      unfold Plan.tableEval
      rw [evalNode_scan hscan rfl]
      exact lt_of_le_of_lt (Nat.min_le_left _ _) (by decide)
  obtain ⟨table, global', result, hrun, hread, hdata, hnum, htypes⟩ :=
    Plan.execute_int32 hplan (.cons ⟨hwell, _, hto⟩ .nil) hint rfl (by simp) hsize
      (show 0 < 3 by decide)
      (fun _ => ⟨⟨⟨4096, by decide, fun _ => ⟨0, 0⟩, [], []⟩, [2, 0, 1]⟩, fun _ _ _ => 7⟩)
      (fun _ _ _ => Buf.zero 8192) {}
  have heval := selfJoin_tableEval ⟨2, columns⟩
  have hroot : (selfJoin ⟨2, columns⟩).root = 2 := rfl
  rw [hroot, heval] at hdata hnum
  exact ⟨_, table, global', result, hto, hrun, hread, hdata, hnum, htypes⟩

/-! ## Scanning the result of a plan -/

/-- An `INT32` column of the result has the slices of the same calls, whatever the new pages
contain. -/
theorem Plan.WellFormed.execute_column {plan : Plan} (hplan : plan.WellFormed)
    (hinputs : plan.InputsScan) {numThreads : Nat} (hT : 0 < numThreads)
    {env : List Bool → NodeEnv} {fresh₀ : Nat → Nat → Nat → Page} {global global₀ : GlobalAllocator}
    {table₀ : ColumnarTable}
    (hrun : execute plan numThreads env fresh₀ global = .ok (table₀, global₀))
    {root : PlanNode} (hroot : plan.nodes[plan.root]? = some root) {a c : Nat}
    (hattr : root.outputAttrs[c]? = some (a, .int32)) :
    ∃ calls : List (Option Int32), calls.length = (plan.rows plan.root).length ∧
      (none ∈ calls ↔ ∃ row ∈ plan.rows plan.root, ∃ v, row[c]? = some v ∧ v.isNull = true) ∧
      (∀ fresh, ∃ table, execute plan numThreads env fresh global = .ok (table, global₀)) ∧
      ∀ fresh table global', execute plan numThreads env fresh global = .ok (table, global') →
        table.numRows = calls.length ∧ table.columns[c]? = some ⟨.int32, slicePages (fresh c)
          (rowsPerThread calls.length numThreads) numThreads calls⟩ := by
  obtain ⟨results, n, hresult, hmaterialize, hall⟩ := hplan.execute_inv hinputs hT hroot hrun
  have hlen : results.length = (root.outputAttrs.map Prod.snd).length := by
    rw [hresult.length, List.length_map, Plan.width, hroot]
  have htype : (root.outputAttrs.map Prod.snd)[c]? = some .int32 := by
    rw [List.getElem?_map, hattr]
    rfl
  have hne : root.outputAttrs.map Prod.snd ≠ [] := fun hnil => by simp [hnil] at htype
  have hc : c < results.length := by
    rw [hlen]
    exact (List.getElem?_eq_some_iff.mp htype).1
  obtain ⟨hvalid, hrows⟩ := hresult.aligned _ (List.getElem_mem hc)
  have hlength : (results[c].values.map int32Call).length = n := by
    rw [List.length_map, ← hvalid.numRows, hrows]
  refine ⟨results[c].values.map int32Call, hlength.trans hresult.numRows.symm, ?_, fun fresh => ?_,
    fun fresh table global' h => ?_⟩
  · rw [← hresult.exists_null_iff (List.getElem?_eq_getElem hc), List.mem_map]
    refine exists_congr fun v => and_congr_right fun _ => ?_
    unfold int32Call
    split <;> simp_all
  · obtain ⟨table, htable⟩ := materialize_fresh hmaterialize fresh
    exact ⟨table, hall fresh table htable⟩
  · obtain ⟨table', htable'⟩ := materialize_fresh hmaterialize fresh
    have heq : (table', global₀) = (table, global') :=
      Except.ok.inj ((hall fresh table' htable').symm.trans h)
    obtain ⟨-, hnum, hcolumns⟩ := materialize_columns hresult.aligned hlen htable'
    obtain ⟨col, column, hcol, hcolumn, hwrite⟩ := hcolumns c .int32 htype
    have hcol : col = results[c] :=
      Option.some.inj (hcol.symm.trans (List.getElem?_eq_getElem hc))
    have hvalues := materializeColumn_valid hvalid plan.inputs (fresh c) numThreads
    rw [hrows] at hvalues
    rw [hcol, hvalues] at hwrite
    rw [← (Prod.mk.inj heq).1, hlength]
    exact ⟨hnum hne, hcolumn.trans (congrArg some (Except.ok.inj hwrite).symm)⟩

/-- Whatever the new pages contain, an `INT32` column of the result of a plan is scanned right
exactly when it has a NULL or the slices of the threads fill their pages. -/
theorem Plan.scansBack_iff {plan : Plan} (hplan : plan.WellFormed) (hinputs : plan.InputsScan)
    {numThreads : Nat} (hT : 0 < numThreads) {env : List Bool → NodeEnv}
    {fresh₀ : Nat → Nat → Nat → Page} {global global₀ : GlobalAllocator} {table₀ : ColumnarTable}
    (hrun : execute plan numThreads env fresh₀ global = .ok (table₀, global₀)) {root : PlanNode}
    (hroot : plan.nodes[plan.root]? = some root) {a c : Nat}
    (hattr : root.outputAttrs[c]? = some (a, .int32)) :
    (∀ fresh table global' column, execute plan numThreads env fresh global = .ok (table, global') →
        table.columns[c]? = some column → ScansBack table.numRows column) ↔
      (∃ row ∈ plan.rows plan.root, ∃ v, row[c]? = some v ∧ v.isNull = true) ∨
        FillsPages (plan.rows plan.root).length numThreads := by
  obtain ⟨calls, hlen, hnull, hruns, hcolumns⟩ :=
    hplan.execute_column hinputs hT hrun hroot hattr
  rw [← hlen, ← hnull, ← scansBack_slicePages_iff hT calls]
  constructor
  · intro h fresh
    obtain ⟨table, htable⟩ := hruns fun _ => fresh
    obtain ⟨hnum, hcolumn⟩ := hcolumns _ table _ htable
    have hscan := h _ table _ _ htable hcolumn
    rwa [hnum] at hscan
  · intro h fresh table global' column htable hcolumn
    obtain ⟨hnum, hcolumn'⟩ := hcolumns fresh table global' htable
    rw [hnum, Option.some.inj (hcolumn.symm.trans hcolumn')]
    exact h (fresh c)

/-- A table of one column without NULLs. -/
def fives (n : Nat) : Table := ⟨List.replicate n [.int32 5], [.int32]⟩

/-- The scan of an input of one column. -/
def scanPlan (input : ColumnarTable) : Plan := ⟨[⟨.scan 0, [(0, .int32)]⟩], [input], 0⟩

theorem scanPlan_nodes {input : ColumnarTable} {idx : Nat} {node : PlanNode}
    (h : (scanPlan input).nodes[idx]? = some node) : node = ⟨.scan 0, [(0, .int32)]⟩ := by
  rcases idx with _ | idx
  · exact (Option.some.inj h).symm
  · simp [scanPlan] at h

theorem scanPlan_wellFormed {input : ColumnarTable} (h : input.columns.length = 1) :
    (scanPlan input).WellFormed where
  root := by simp [scanPlan]
  scan idx node tableId hnode hdata := by
    obtain rfl := scanPlan_nodes hnode
    cases hdata
    exact ⟨input, rfl, by simp [PlanNode.attrs, h]⟩
  join idx node l r a b hnode hdata := by
    obtain rfl := scanPlan_nodes hnode
    cases hdata

theorem scanPlan_allInt32 (input : ColumnarTable) (n : Nat) :
    (scanPlan input).AllInt32 [fives n] where
  attrs node hnode attr hattr := by
    obtain ⟨idx, hnode⟩ := List.getElem?_of_mem hnode
    obtain rfl := scanPlan_nodes hnode
    rw [List.mem_singleton.mp hattr]
  scanned node hnode tableId t hdata ht a ha := by
    obtain ⟨idx, hnode⟩ := List.getElem?_of_mem hnode
    obtain rfl := scanPlan_nodes hnode
    cases hdata
    obtain rfl := Option.some.inj ht
    obtain rfl := List.mem_singleton.mp ha
    rfl

/-- Every row of the scan is a five. -/
theorem scanPlan_rows {input : ColumnarTable} {n : Nat} (h : input.columns.length = 1)
    (hinputs : InputsOf [fives n] [input]) : ((scanPlan input).rows 0).length = n ∧
      ∀ row ∈ (scanPlan input).rows 0, ∀ v, row[0]? = some v → v.isNull = false := by
  obtain ⟨heval, hint⟩ :=
    (scanPlan_allInt32 input n).rows (scanPlan_wellFormed h) hinputs 0
  have hrows : (scanPlan input).tableEval [fives n] 0 = List.replicate n [.int32 5] := by
    have hnode : (scanPlan input).nodes[0]? = some ⟨.scan 0, [(0, .int32)]⟩ := rfl
    unfold Plan.tableEval
    rw [evalNode_scan hnode rfl]
    show (List.replicate n [Data.int32 5]).map (project [0]) = _
    rw [List.map_replicate]
    rfl
  rw [hrows] at heval
  constructor
  · have hlen := congrArg List.length heval
    rwa [List.length_replicate, List.length_map, eq_comm] at hlen
  · intro row hrow v hv
    have hmem := List.mem_map_of_mem (f := List.map Value.cell) hrow
    rw [← heval] at hmem
    have hcell := congrArg (·[0]?) (List.eq_of_mem_replicate hmem)
    simp only [List.getElem?_map, hv, Option.map_some, List.getElem?_cons_zero,
      Option.some.injEq] at hcell
    rw [Value.isNull_of_isInt32 (hint row hrow v (List.mem_of_getElem? hv))]
    rw [Value.cell] at hcell
    cases hkey : v.key with
    | none => rw [hkey] at hcell; cases hcell
    | some x => rfl

/-- What is outside the program in the runs below. -/
def scanEnv : List Bool → NodeEnv :=
  fun _ => ⟨⟨⟨4096, by decide, fun _ => ⟨0, 0⟩, [], []⟩, []⟩, fun _ _ _ => 0⟩

/-- Two threads scan a table. -/
theorem scanPlan_run (n : Nat) : ∃ input table global',
    toColumnar (fun _ _ => Buf.zero 8192) (fives n) = .ok input ∧ input.columns.length = 1 ∧
      InputsOf [fives n] [input] ∧ (scanPlan input).InputsScan ∧
      execute (scanPlan input) 2 scanEnv (fun _ _ _ => Buf.zero 8192) {} =
        .ok (table, global') := by
  have hwell : (fives n).WellTyped := by
    intro record hrecord
    rw [List.eq_of_mem_replicate hrecord]
    exact .cons rfl .nil
  obtain ⟨columns, hto, hall⟩ := toColumnar_ok (fun _ _ => Buf.zero 8192) hwell
  have hinputs : InputsOf [fives n] [⟨(fives n).data.length, columns⟩] :=
    .cons ⟨hwell, _, hto⟩ .nil
  have hint := scanPlan_allInt32 ⟨(fives n).data.length, columns⟩ n
  have hsize : ∀ (idx : Nat) (node : PlanNode) (l r a b : Nat),
      (scanPlan ⟨(fives n).data.length, columns⟩).nodes[idx]? = some node →
        node.data = .join l r a b →
          min ((scanPlan ⟨(fives n).data.length, columns⟩).tableEval [fives n] l).length
            ((scanPlan ⟨(fives n).data.length, columns⟩).tableEval [fives n] r).length <
              2 ^ 30 := by
    intro idx node l r a b hnode hdata
    obtain rfl := scanPlan_nodes hnode
    cases hdata
  obtain ⟨-, -, table, global', hrun, -⟩ := hint.execute_ok
    (scanPlan_wellFormed hall.length_eq.symm) hinputs rfl (by simp) hsize Nat.two_pos scanEnv
      (fun _ _ _ => Buf.zero 8192) {}
  exact ⟨_, table, global', hto, hall.length_eq.symm, hinputs, hint.inputsScan hinputs, hrun⟩

/-- Of 7936 rows each thread writes 3968, which fill two pages. -/
theorem Plan.scansBack_7936 : ∃ input,
    toColumnar (fun _ _ => Buf.zero 8192) (fives 7936) = .ok input ∧
      ∀ fresh table global' column,
        execute (scanPlan input) 2 scanEnv fresh {} = .ok (table, global') →
          table.columns[0]? = some column → ScansBack table.numRows column := by
  obtain ⟨input, table, global', hto, hlen, hinputs, hscan, hrun⟩ := scanPlan_run 7936
  refine ⟨input, hto, (Plan.scansBack_iff (scanPlan_wellFormed hlen) hscan Nat.two_pos hrun rfl
    rfl).mpr (.inr ?_)⟩
  rw [show (scanPlan input).root = 0 from rfl, (scanPlan_rows hlen hinputs).1]
  decide

/-- Of 3970 rows each thread writes 1985, the last of them on a page of its own. -/
theorem Plan.not_scansBack_3970 : ∃ input,
    toColumnar (fun _ _ => Buf.zero 8192) (fives 3970) = .ok input ∧
      (scanPlan input).WellFormed ∧ ¬ ∀ fresh table global' column,
        execute (scanPlan input) 2 scanEnv fresh {} = .ok (table, global') →
          table.columns[0]? = some column → ScansBack table.numRows column := by
  obtain ⟨input, table, global', hto, hlen, hinputs, hscan, hrun⟩ := scanPlan_run 3970
  refine ⟨input, hto, scanPlan_wellFormed hlen, fun h => ?_⟩
  obtain ⟨calls, hcalls, hnull, hruns, hcolumns⟩ :=
    (scanPlan_wellFormed hlen).execute_column hscan Nat.two_pos hrun rfl (c := 0) rfl
  obtain ⟨hrows, hfives⟩ := scanPlan_rows hlen hinputs
  have hscans : ∀ fresh, ScansBack calls.length ⟨.int32, slicePages fresh
      (rowsPerThread calls.length 2) 2 calls⟩ := by
    intro fresh
    obtain ⟨table, htable⟩ := hruns fun _ => fresh
    obtain ⟨hnum, hcolumn⟩ := hcolumns _ table _ htable
    have hscan := h _ table _ _ htable hcolumn
    rwa [hnum] at hscan
  rcases (scansBack_slicePages_iff Nat.two_pos calls).mp hscans with hnone | hfills
  · obtain ⟨row, hrow, v, hv, hnull⟩ := hnull.mp hnone
    rw [hfives row hrow v hv] at hnull
    cases hnull
  · rw [hcalls, show (scanPlan input).root = 0 from rfl, hrows] at hfills
    exact absurd hfills (by decide)

end HashJoin
