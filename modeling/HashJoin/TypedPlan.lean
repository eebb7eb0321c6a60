import HashJoin.CSVTable
import HashJoin.Int32Plan
import HashJoin.MaterializeThreads
import HashJoin.StringRefs

/-!
# Plans over INT32 and VARCHAR columns

Strings pass through a plan as references into the inputs and are only read when the result is
written. The references must lead to their strings: then the table that is decoded from the result
has the rows that the plan means over the tables that the inputs were made of.
-/

namespace HashJoin

open Bytes Chunks Relational

/-! ## Strings that are found -/

theorem StringPages.eq_nil {segs : List Segment} (h : StringPages segs []) : segs = [] := by
  generalize hpages : ([] : List Page) = pages at h
  cases h with
  | nil => rfl
  | @cons seg segs qs ps hq _ =>
    obtain ⟨rfl, -⟩ := List.append_eq_nil_iff.mp hpages.symm
    cases seg with
    | short rows =>
      obtain ⟨p, hp, -⟩ := hq
      cases hp
    | long s =>
      obtain ⟨c, cs, p, ps, hp, -⟩ := hq.2.split
      cases hp

theorem StringPages.length_long {segs : List Segment} {pages : List Page}
    (h : StringPages segs pages) {s : List UInt8} (hs : .long s ∈ segs) : 8192 - 7 < s.length := by
  induction h with
  | nil => simp at hs
  | cons hq _ ih =>
    rcases List.mem_cons.mp hs with rfl | hs
    · exact hq.1
    · exact ih hs

theorem map_rowValues {α β γ : Type} (f : β → γ) (value null : Nat → β) (rows : List (Option α))
    (i cur : Nat) : (rowValues value null rows i cur).map f =
      rowValues (f ∘ value) (f ∘ null) rows i cur := by
  induction rows generalizing i cur with
  | nil => rfl
  | cons row rows ih =>
    cases row with
    | none => rw [rowValues, rowValues, List.map_cons, ih, Function.comp_apply]
    | some x => rw [rowValues, rowValues, List.map_cons, ih, Function.comp_apply]

/-- The references to the slots of some segments lead to their rows, when the base offsets agree on
the ordinary pages and the last page of the column does not end a long string. -/
theorem StringPages.stringCalls {inputs : List ColumnarTable} {table : ColumnarTable}
    {tableId colId : Nat} {pages : List Page} (ht : inputs[tableId % 65536]? = some table)
    (hc : table.columns[colId % 65536]? = some ⟨.varchar, pages⟩) (hlen : pages.length ≤ 65536)
    (hagree : ∀ p ∈ pages, p.u16 0 < 0xfffe → BaseAgrees p) {segs : List Segment} {rest : List Page}
    (h : StringPages segs rest)
    (hend : ∀ init s, segs = init ++ [.long s] → pages.length = 65536) {pre : List Segment}
    {ps : List Page} (hpre : StringPages pre ps) (hpages : pages = ps ++ rest) :
    List.Forall₂ (fun v row => stringCall inputs v = .ok row)
      ((columnSlots rest ps.length).map (slotRef tableId colId))
      (segs.flatMap Segment.values) := by
  induction h generalizing pre ps with
  | nil => exact .nil
  | @cons seg segs qs rest hq hrest ih =>
    have hsplit : pages = ps ++ qs ++ rest := by rw [hpages, List.append_assoc]
    have hall := (hpre.append (.cons hq .nil)).append hrest
    rw [List.append_nil] at hall
    have hend' : ∀ init s, segs = init ++ [.long s] → pages.length = 65536 :=
      fun init s hinit => hend (seg :: init) s (by rw [hinit, List.cons_append])
    have htail := ih hend' (hpre.concat hq) hsplit
    rw [columnSlots_append, List.map_append, List.flatMap_cons]
    refine List.rel_append ?_ (by rwa [List.length_append] at htail)
    cases seg with
    | short rows =>
      obtain ⟨p, rfl, hp⟩ := hq
      have hget : pages[ps.length]? = some p := by simp [hpages]
      have hidx : ps.length < 65536 := by
        have := congrArg List.length hpages
        simp only [List.length_append, List.length_cons] at this
        omega
      have hrefs := (stringRefs_iff ht hc hget hidx hp).mpr
        (hagree p (List.mem_of_getElem? hget) hp.numRows_lt)
      unfold columnSlots
      rw [columnSlots, List.append_nil, hp.pageSlots, map_rowValues]
      exact hrefs
    | long s =>
      have hne : rest ≠ [] ∨ (ps ++ qs ++ rest).length = 65536 := by
        by_cases hnil : rest = []
        · refine .inr (hsplit ▸ hend [] s ?_)
          rw [hnil] at hrest
          rw [hrest.eq_nil, List.nil_append]
        · exact .inl hnil
      have hderef := derefString_long ht (hsplit ▸ hc) hq.2 hall (hsplit ▸ hlen) hrest
      rw [if_pos hne] at hderef
      have hnotNull : ¬ (Value.str tableId colId ps.length 4).isNull = true := by
        rw [Value.isNull_str (by decide) (by decide)]
        decide
      rw [hq.2.columnSlots]
      refine .cons ?_ .nil
      show stringCall inputs (Value.str tableId colId ps.length 4) = _
      unfold stringCall
      rw [if_neg hnotNull, hderef, ok_bind]

/-- What the references to the strings of a column need to lead back to them: the pages can be
numbered, the base offsets agree on the ordinary ones, and a long string is not the last value. -/
structure StringsFound (cells : List Data) (pages : List Page) : Prop where
  numbered : pages.length ≤ 65536
  agree : ∀ p ∈ pages, p.u16 0 < 0xfffe → BaseAgrees p
  last : ∀ s, cells.getLast? = some (.varchar s) → s.length ≤ 8192 - 7 ∨ pages.length = 65536

/-- The strings of a written column are found through the references that a scan makes. -/
theorem WrittenStrings.stringCalls {rows : List (Option (List UInt8))} {pages : List Page}
    (h : WrittenStrings rows pages) (hfound : StringsFound (rows.map (cellOf Data.varchar)) pages)
    {inputs : List ColumnarTable} {table : ColumnarTable} {tableId colId : Nat}
    (htid : tableId < 65536) (hcid : colId < 65536) (ht : inputs[tableId]? = some table)
    (hc : table.columns[colId]? = some ⟨.varchar, pages⟩) (junk : Nat → Nat → Int32) :
    List.Forall₂ (fun v row => stringCall inputs v = .ok row)
      (buildColumnInserter tableId colId ⟨.varchar, pages⟩ .varchar junk).values rows := by
  obtain ⟨segs, rfl, hpages, -⟩ := h.segments
  rw [(buildColumnInserter_slots tableId colId pages junk).2]
  refine hpages.stringCalls (by rwa [Nat.mod_eq_of_lt htid]) (by rwa [Nat.mod_eq_of_lt hcid])
    hfound.numbered hfound.agree ?_ .nil rfl
  rintro init s rfl
  have hlong := hpages.length_long (s := s) (by simp)
  have hlast : ((init ++ [Segment.long s]).flatMap Segment.values).map (cellOf Data.varchar) =
      (init.flatMap Segment.values).map (cellOf Data.varchar) ++ [.varchar s] := by
    simp [Segment.values, cellOf]
  rcases hfound.last s (by rw [hlast, List.getLast?_concat]) with hshort | hfull
  · omega
  · exact hfull

/-! ## Cells -/

/-- What a value of the executor stands for in a column of the type. -/
def IsCell (inputs : List ColumnarTable) : DataType → Value → Data → Prop
  | .int32, v, cell => v.IsInt32 ∧ cell = v.cell
  | .varchar, v, cell => ∃ call, stringCall inputs v = .ok call ∧ cell = cellOf Data.varchar call
  | .int64, _, _ | .fp64, _, _ => False

section

variable {inputs : List ColumnarTable} {type : DataType} {v : Value} {cell cell' : Data}

theorem stringCall_erase (inputs : List ColumnarTable) (v : Value) :
    stringCall inputs v.erase = stringCall inputs v := by
  by_cases h : v.status = 0
  · have hnull : v.isNull = true := by simp [Value.isNull, h]
    rw [stringCall, stringCall, Value.isNull_erase, if_pos hnull, if_pos hnull]
  · rw [Value.erase, if_neg h]

theorem isCell_erase : IsCell inputs type v.erase cell ↔ IsCell inputs type v cell := by
  cases type with
  | int32 =>
    show _ ∧ _ ↔ _ ∧ _
    rw [Value.isInt32_erase, Value.cell_erase]
  | int64 => exact Iff.rfl
  | fp64 => exact Iff.rfl
  | varchar =>
    show (∃ call, _) ↔ ∃ call, _
    rw [stringCall_erase]

theorem IsCell.known (h : IsCell inputs type v cell) : type = .int32 ∨ type = .varchar := by
  cases type with
  | int32 => exact .inl rfl
  | int64 => exact h.elim
  | fp64 => exact h.elim
  | varchar => exact .inr rfl

/-- It is what the value is written as. -/
theorem IsCell.materialized (h : IsCell inputs type v cell) :
    materializedCell inputs type v = .ok cell := by
  cases type with
  | int32 =>
    show Except.ok (if v.isNull then Data.null else .int32 v.val) = _
    rw [← cellOf_int32Call, Value.cell_int32Call h.1, h.2]
  | int64 => exact h.elim
  | fp64 => exact h.elim
  | varchar =>
    obtain ⟨call, hcall, rfl⟩ := h
    show (stringCall inputs v >>= _) = _
    rw [hcall, ok_bind]

theorem IsCell.getInt32 (h : IsCell inputs .int32 v cell) : cell.getInt32 = v.key := by
  rw [h.2, Value.cell]
  cases v.key <;> rfl

end

/-! ## Scans -/

/-- The column has the cells, written by `to_columnar` or by a `ColumnInserter`. -/
def WrittenColumn (type : DataType) (cells : List Data) (column : Column) : Prop :=
  column.type = type ∧ ∃ fresh, writeColumn fresh type cells = .ok column.pages ∨
    column.pages = writeCells fresh type cells

/-- The table as an input of a plan. -/
structure TableWritten (t : Table) (input : ColumnarTable) : Prop where
  wellTyped : t.WellTyped
  numRows : input.numRows = t.data.length
  column : ∀ (a : Nat) (type : DataType), t.types[a]? = some type →
    ∃ column, input.columns[a]? = some column ∧ WrittenColumn type (t.column a) column

/-- A scan of a column makes values that stand for its cells. -/
theorem WrittenColumn.scan {inputs : List ColumnarTable} {input : ColumnarTable} {tableId a : Nat}
    {type : DataType} {cells : List Data} {column : Column} (h : WrittenColumn type cells column)
    (hcells : ∀ v ∈ cells, v.HasType type) (hknown : type = .int32 ∨ type = .varchar)
    (ht : inputs[tableId]? = some input) (hc : input.columns[a]? = some column)
    (hfound : type = .varchar → tableId < 65536 ∧ a < 65536 ∧ StringsFound cells column.pages)
    (junk : Nat → Nat → Int32) :
    (buildColumnInserter tableId a column column.type junk).Valid ∧
      List.Forall₂ (IsCell inputs type)
        (buildColumnInserter tableId a column column.type junk).values cells := by
  obtain ⟨htype, fresh, hpages⟩ := h
  obtain ⟨type', pages⟩ := column
  simp only at htype hpages hfound ⊢
  rw [htype] at hc ⊢
  rcases hknown with rfl | rfl
  · have hrows := map_getInt32 hcells
    have hfixed : FixedColumn 4 (cells.map Data.getInt32) pages := by
      rcases hpages with hpages | hpages
      · rw [← hrows] at hpages
        rw [← Except.ok.inj hpages]
        exact FixedWriter.write_ok fresh 4 Data.getInt32 Data.int32 (fun _ => rfl) (by simp)
          (by decide) (by decide) _
      · rw [hpages]
        exact ColumnInserter.write_ok fresh rfl _
    obtain ⟨chunks, hchunks, hint32, huni⟩ := hfixed.int32
    obtain ⟨hvalid, hkeys, hint⟩ :=
      buildColumnInserter_int32 tableId a junk hint32 fun hnone => huni (hchunks ▸ hnone)
    refine ⟨hvalid, ?_⟩
    rw [← hchunks] at hkeys
    have hmap := congrArg (List.map (cellOf Data.int32)) hkeys
    rw [hrows, List.map_map] at hmap
    rw [← hmap, List.forall₂_map_right_iff, List.forall₂_same]
    exact fun v hv => ⟨hint v hv, rfl⟩
  · obtain ⟨htid, haid, hfound⟩ := hfound rfl
    have hrows := map_getVarchar hcells
    have hw : WrittenStrings (cells.map Data.getVarchar) pages := by
      rcases hpages with hpages | hpages
      · exact ⟨fresh, .inr (by rwa [hrows])⟩
      · exact ⟨fresh, .inl hpages.symm⟩
    refine ⟨(buildColumnInserter_slots tableId a pages junk).1, ?_⟩
    have hcalls := hw.stringCalls (by rwa [hrows]) htid haid ht hc junk
    rw [← hrows, List.forall₂_map_right_iff]
    exact hcalls.imp fun v call hcall => ⟨call, hcall, rfl⟩

/-! ## Plans -/

/-- The types of the columns that a node outputs. -/
def Plan.types (plan : Plan) (nodeIdx : Nat) : List DataType :=
  match plan.nodes[nodeIdx]? with
  | none => []
  | some node => node.outputAttrs.map Prod.snd

/-- A plan gives each of its columns the type that it has in its table, `INT32` or `VARCHAR`, and
joins on `INT32` columns. -/
structure Plan.Typed (plan : Plan) (tables : List Table) : Prop where
  known : ∀ node ∈ plan.nodes, ∀ attr ∈ node.outputAttrs, attr.2 = .int32 ∨ attr.2 = .varchar
  scan : ∀ node ∈ plan.nodes, ∀ (tableId : Nat) (t : Table), node.data = .scan tableId →
    tables[tableId]? = some t → ∀ attr ∈ node.outputAttrs, t.types[attr.1]? = some attr.2
  join : ∀ node ∈ plan.nodes, ∀ (l r a b : Nat), node.data = .join l r a b →
    (plan.types l)[a]? = some .int32 ∧ (plan.types r)[b]? = some .int32 ∧
      ∀ attr ∈ node.outputAttrs, (plan.types l ++ plan.types r)[attr.1]? = some attr.2

/-- The inputs of a plan are written from the tables. -/
def InputsWritten (tables : List Table) (inputs : List ColumnarTable) : Prop :=
  List.Forall₂ TableWritten tables inputs

/-- The strings that a plan scans are found. -/
def Plan.StringsFound (plan : Plan) (tables : List Table) : Prop :=
  ∀ node ∈ plan.nodes, ∀ (tableId : Nat) (t : Table) (input : ColumnarTable) (column : Column),
    node.data = .scan tableId → tables[tableId]? = some t → plan.inputs[tableId]? = some input →
    ∀ attr ∈ node.outputAttrs, attr.2 = .varchar → input.columns[attr.1]? = some column →
      tableId < 65536 ∧ attr.1 < 65536 ∧ HashJoin.StringsFound (t.column attr.1) column.pages

theorem Plan.length_types (plan : Plan) (idx : Nat) : (plan.types idx).length = plan.width idx := by
  unfold types width
  cases plan.nodes[idx]? with
  | none => rfl
  | some node => simp

/-- Projecting to the places of some pairs gives their values. -/
theorem project_fst {τ : Type} {attrs : List (Nat × τ)} {row : List τ}
    (h : ∀ attr ∈ attrs, row[attr.1]? = some attr.2) :
    project (attrs.map Prod.fst) row = attrs.map Prod.snd := by
  unfold project
  rw [List.filterMap_map, ← List.filterMap_eq_map]
  exact List.filterMap_congr fun attr hattr => h attr hattr

section

variable {plan : Plan} {tables : List Table}

theorem InputsWritten.table (h : InputsWritten tables plan.inputs) {tableId : Nat}
    {input : ColumnarTable} (hinput : plan.inputs[tableId]? = some input) :
    ∃ t, tables[tableId]? = some t ∧ TableWritten t input := by
  obtain ⟨hi, rfl⟩ := List.getElem?_eq_some_iff.mp hinput
  have hi' : tableId < tables.length := h.length_eq ▸ hi
  exact ⟨_, List.getElem?_eq_getElem hi', List.Forall₂.get h hi' hi⟩

/-- What a scan node finds in a column. -/
theorem Plan.Typed.scanColumn (h : plan.Typed tables) (hstrings : plan.StringsFound tables)
    {node : PlanNode} (hnode : node ∈ plan.nodes) {tableId : Nat}
    (hdata : node.data = .scan tableId)
    {input : ColumnarTable}
    (hinput : plan.inputs[tableId]? = some input) {t : Table} (ht : tables[tableId]? = some t)
    (hwritten : TableWritten t input) {attr : Nat × DataType} (hattr : attr ∈ node.outputAttrs) :
    ∃ column, input.columns[attr.1]? = some column ∧ ∀ junk,
      (buildColumnInserter tableId attr.1 column column.type junk).Valid ∧
        List.Forall₂ (IsCell plan.inputs attr.2)
          (buildColumnInserter tableId attr.1 column column.type junk).values
          (t.column attr.1) := by
  have htype := h.scan node hnode tableId t hdata ht attr hattr
  obtain ⟨column, hcolumn, hcells⟩ := hwritten.column attr.1 attr.2 htype
  exact ⟨column, hcolumn, hcells.scan (hwritten.wellTyped.column_hasType htype)
    (h.known node hnode attr hattr) hinput hcolumn fun hv =>
      hstrings node hnode tableId t input column hdata ht hinput attr hattr hv hcolumn⟩

theorem Plan.Typed.inputsScan (h : plan.Typed tables) (hinputs : InputsWritten tables plan.inputs)
    (hstrings : plan.StringsFound tables) : plan.InputsScan := by
  intro idx node tableId input hnode hdata hinput a ha column hcolumn junk
  obtain ⟨t, ht, hwritten⟩ := hinputs.table hinput
  obtain ⟨attr, hattr, rfl⟩ := List.mem_map.mp ha
  obtain ⟨column', hcolumn', hscan⟩ :=
    h.scanColumn hstrings (List.mem_of_getElem? hnode) hdata hinput ht hwritten hattr
  obtain rfl : column' = column := Option.some.inj (hcolumn'.symm.trans hcolumn)
  obtain ⟨hvalid, hcells⟩ := hscan junk
  refine ⟨hvalid, ?_⟩
  rw [hvalid.numRows, hcells.length_eq, Table.column, List.length_map, hwritten.numRows]

/-- The rows of a scan node stand for those of its table. -/
theorem Plan.Typed.related_scan (h : plan.Typed tables) (hplan : plan.WellFormed)
    (hinputs : InputsWritten tables plan.inputs) (hstrings : plan.StringsFound tables)
    {idx tableId : Nat} {node : PlanNode} (hnode : plan.nodes[idx]? = some node)
    (hdata : node.data = .scan tableId) :
    List.Forall₂ (Related (IsCell plan.inputs) (node.outputAttrs.map Prod.snd))
      (scannedRows plan.inputs tableId node.attrs) (tableRows tables tableId node.attrs) := by
  obtain ⟨input, hinput, -⟩ := hplan.scan idx node tableId hnode hdata
  obtain ⟨t, ht, hwritten⟩ := hinputs.table hinput
  have hmem := List.mem_of_getElem? hnode
  have hcolumn : ∀ attr ∈ node.outputAttrs, List.Forall₂ (IsCell plan.inputs attr.2)
      (scannedColumn input tableId attr.1) (t.column attr.1) := by
    intro attr hattr
    obtain ⟨column, hcolumn, hscan⟩ :=
      h.scanColumn hstrings hmem hdata hinput ht hwritten hattr
    unfold scannedColumn
    rw [hcolumn]
    exact List.forall₂_map_left_iff.mpr ((hscan fun _ _ => 0).2.imp fun v cell => isCell_erase.mpr)
  have hwidth : ∀ record ∈ t.data, ∀ a ∈ node.attrs, a < record.length := by
    intro record hrecord a ha
    obtain ⟨attr, hattr, rfl⟩ := List.mem_map.mp ha
    rw [(hwritten.wellTyped record hrecord).length_eq]
    exact (List.getElem?_eq_some_iff.mp (h.scan node hmem tableId t hdata ht attr hattr)).1
  have hlens : ∀ values ∈ node.attrs.map (scannedColumn input tableId),
      values.length = t.data.length := by
    intro values hvalues
    obtain ⟨a, ha, rfl⟩ := List.mem_map.mp hvalues
    obtain ⟨attr, hattr, rfl⟩ := List.mem_map.mp ha
    rw [(hcolumn attr hattr).length_eq, Table.column, List.length_map]
  have hcells : ∀ cells ∈ node.attrs.map t.column, cells.length = t.data.length := by
    intro cells hcells
    obtain ⟨a, -, rfl⟩ := List.mem_map.mp hcells
    rw [Table.column, List.length_map]
  unfold scannedRows tableRows
  rw [hinput, ht]
  show List.Forall₂ _ (transpose input.numRows _) (t.data.map (project node.attrs))
  rw [map_project_eq_transpose hwidth .null, hwritten.numRows]
  refine Related.transpose ⟨by simp [PlanNode.attrs], by simp [PlanNode.attrs], ?_⟩ hlens hcells
  intro j type values cells htype hvalues hcells
  simp only [PlanNode.attrs, List.getElem?_map, Option.map_map, Option.map_eq_some_iff]
    at htype hvalues hcells
  obtain ⟨attr, hattr, rfl⟩ := htype
  obtain ⟨attr', hattr', rfl⟩ := hvalues
  obtain ⟨attr'', hattr'', rfl⟩ := hcells
  obtain rfl := Option.some.inj (hattr.symm.trans hattr')
  obtain rfl := Option.some.inj (hattr.symm.trans hattr'')
  exact hcolumn attr (List.mem_of_getElem? hattr)

/-- The rows of a node stand for the rows that it means over the tables. -/
theorem Plan.Typed.related (h : plan.Typed tables) (hplan : plan.WellFormed)
    (hinputs : InputsWritten tables plan.inputs) (hstrings : plan.StringsFound tables)
    (nodeIdx : Nat) : List.Forall₂ (Related (IsCell plan.inputs) (plan.types nodeIdx))
      (plan.rows nodeIdx) (plan.tableEval tables nodeIdx) := by
  induction nodeIdx using Nat.strong_induction_on with
  | _ nodeIdx ih =>
    unfold rows tableEval at ih ⊢
    cases hnode : plan.nodes[nodeIdx]? with
    | none =>
      rw [evalNode, evalNode, hnode]
      exact .nil
    | some node =>
      have htypes : plan.types nodeIdx = node.outputAttrs.map Prod.snd := by
        unfold types
        rw [hnode]
      rw [htypes]
      cases hdata : node.data with
      | scan tableId =>
        rw [evalNode_scan hnode hdata, evalNode_scan hnode hdata]
        exact h.related_scan hplan hinputs hstrings hnode hdata
      | join l r a b =>
        obtain ⟨hl, hr, -, -, -⟩ := hplan.join nodeIdx node l r a b hnode hdata
        obtain ⟨ha, hb, hattrs⟩ := h.join node (List.mem_of_getElem? hnode) l r a b hdata
        rw [evalNode_join hnode hdata hl hr, evalNode_join hnode hdata hl hr,
          List.forall₂_map_left_iff, List.forall₂_map_right_iff]
        -- On an `INT32` column a value and its cell have the same key.
        have hkey : ∀ {idx c : Nat} {row : List Value} {cells : List Data},
            (plan.types idx)[c]? = some .int32 →
            Related (IsCell plan.inputs) (plan.types idx) row cells →
            row[c]?.bind Value.key = cells[c]?.bind Data.getInt32 := by
          intro idx c row cells htype hrow
          have hc := (List.getElem?_eq_some_iff.mp htype).1
          have hv := List.getElem?_eq_getElem (hrow.left ▸ hc : c < row.length)
          have hcell := List.getElem?_eq_getElem (hrow.right ▸ hc : c < cells.length)
          rw [hv, hcell, Option.bind_some, Option.bind_some]
          exact (hrow.value c _ _ _ htype hv hcell).getInt32.symm
        refine (forall₂_equiJoin (ih l hl) (ih r hr) (fun x x' y y' hx hy => ?_)
          (fun x x' y y' hx hy => hx.append hy)).imp fun row cells hrow => ?_
        · rw [Matches, Matches, hkey ha hx, hkey hb hy]
        · have hplaces : ∀ c ∈ node.attrs, c < (plan.types l ++ plan.types r).length := by
            intro c hc
            obtain ⟨attr, hattr, rfl⟩ := List.mem_map.mp hc
            exact (List.getElem?_eq_some_iff.mp (hattrs attr hattr)).1
          have hproject := hrow.project hplaces
          rwa [PlanNode.attrs, project_fst hattrs] at hproject

end

/-! ## Running a plan -/

/-- The columns of a result stand for the cells that the rows of the plan stand for, in the order of
the result. -/
theorem Plan.IsResult.cells_of_related {plan : Plan} {idx n : Nat} {results : List ColumnT}
    (h : plan.IsResult idx n results) {cells : List (List Data)}
    (hrelated : List.Forall₂ (Related (IsCell plan.inputs) (plan.types idx)) (plan.rows idx)
      cells) : ∃ decoded : List (List Data), decoded.length = n ∧ decoded.Perm cells ∧
      List.Forall₂ (Related (IsCell plan.inputs) (plan.types idx)) (rowsOf n results) decoded := by
  obtain ⟨decoded, hall, hperm⟩ := List.perm_comp_forall₂ h.rows hrelated
  rw [List.forall₂_map_left_iff] at hall
  refine ⟨decoded, ?_, hperm, hall.imp fun row cells hrow => ?_⟩
  · rw [← hall.length_eq, HashJoin.rowsOf, length_transpose]
  · refine ⟨by simpa using hrow.left, hrow.right, fun i type v cell htype hv hcell => ?_⟩
    refine isCell_erase.mp (hrow.value i type v.erase cell htype ?_ hcell)
    rw [List.getElem?_map, hv, Option.map_some]

/-- A result that stands for the rows of a table can be written, and is decoded to them. -/
theorem fromColumnar_materialize_cells {inputs : List ColumnarTable} {results : List ColumnT}
    {n : Nat} (hresults : Aligned n results) {types : List DataType} (hne : types ≠ [])
    (hlen : results.length = types.length) {decoded : List (List Data)} (hn : decoded.length = n)
    (hcells : List.Forall₂ (Related (IsCell inputs) types) (rowsOf n results) decoded)
    (hknown : ∀ type ∈ types, type = .int32 ∨ type = .varchar)
    (fresh : Nat → Nat → Nat → Page) {numThreads : Nat} (hT : 0 < numThreads) :
    ∃ table, materialize inputs results types fresh numThreads = .ok table ∧ table.numRows = n ∧
      fromColumnar table = .ok ⟨decoded, types⟩ := by
  have hhead : headRows results = n :=
    headRows_eq hresults fun hnil => hne (by simpa [hnil] using hlen.symm)
  have hwidth : ∀ row ∈ decoded, row.length = types.length := by
    intro row hrow
    obtain ⟨i, hi, rfl⟩ := List.mem_iff_getElem.mp hrow
    exact (hcells.get (hcells.length_eq ▸ hi) hi).right
  have hcolumns := related_columns hcells
  have hvalues : transpose types.length (rowsOf n results) = results.map ColumnT.values := by
    have := transpose_transpose hresults.length_values
    rwa [List.length_map, hlen] at this
  rw [hvalues] at hcolumns
  -- Each column of the result, with its cells.
  have hall : List.Forall₂ (ResultCells inputs results n) types.zipIdx
      (transpose types.length decoded) := by
    refine List.forall₂_iff_get.mpr ⟨by simp, fun c hc hc' => ?_⟩
    have hlt : c < types.length := by simpa using hc
    have hget : results[c]? = some results[c] := List.getElem?_eq_getElem (hlen ▸ hlt)
    have htype : types[c]? = some types[c] := List.getElem?_eq_getElem hlt
    obtain ⟨hvalid, hrows⟩ := hresults results[c] (List.getElem_mem (hlen ▸ hlt))
    simp only [List.get_eq_getElem, List.getElem_zipIdx, Nat.zero_add]
    refine ⟨results[c], hget, hvalid, hrows, hknown _ (List.getElem_mem hlt), ?_⟩
    exact (hcolumns.value c types[c] results[c].values _ htype (by simp [hget])
      (List.getElem?_eq_getElem hc')).imp fun v cell hcell => hcell.materialized
  obtain ⟨columns, hwrite, htypes, hholds⟩ := materializeColumns_holds hall fresh hT
  refine ⟨_, by rw [materialize_eq, hhead, hwrite, ok_bind], rfl, ?_⟩
  have hlens : ∀ cells ∈ transpose types.length decoded, cells.length = n :=
    hn ▸ length_mem_transpose hwidth
  have hback : transpose n (transpose types.length decoded) = decoded :=
    hn ▸ transpose_transpose hwidth
  rw [fromColumnar_holds hholds, htypes, List.zipIdx_map_fst, ← transpose_eq_getD hlens, hback]

/-- The result of a plan whose rows stand for some cells is decoded to them, in some order. -/
theorem Plan.WellFormed.execute_cells {plan : Plan} (hplan : plan.WellFormed)
    (hscan : plan.InputsScan) (hbuilds : plan.BuildsFit) {cells : List (List Data)}
    (hrelated : List.Forall₂ (Related (IsCell plan.inputs) (plan.types plan.root))
      (plan.rows plan.root) cells) {root : PlanNode} (hroot : plan.nodes[plan.root]? = some root)
    (hne : root.outputAttrs ≠ [])
    (hknown : ∀ attr ∈ root.outputAttrs, attr.2 = .int32 ∨ attr.2 = .varchar)
    {numThreads : Nat} (hT : 0 < numThreads) (env : List Bool → NodeEnv)
    (fresh : Nat → Nat → Nat → Page) (global : GlobalAllocator) :
    ∃ table global' result, execute plan numThreads env fresh global = .ok (table, global') ∧
      fromColumnar table = .ok result ∧ result.data.Perm cells ∧ table.numRows = cells.length ∧
      result.types = root.outputAttrs.map Prod.snd := by
  obtain ⟨results, global', n, himpl, hresult⟩ :=
    hplan.executeImpl_ok hscan hbuilds hT env global hplan.root hplan.root
  obtain ⟨decoded, hn, hperm, hcells⟩ := hresult.cells_of_related hrelated
  have htypes : plan.types plan.root = root.outputAttrs.map Prod.snd := by
    unfold types
    rw [hroot]
  rw [htypes] at hcells
  have hlen : results.length = (root.outputAttrs.map Prod.snd).length := by
    rw [hresult.length, ← plan.length_types, htypes]
  have htypesKnown : ∀ type ∈ root.outputAttrs.map Prod.snd, type = .int32 ∨ type = .varchar := by
    intro type htype
    obtain ⟨attr, hattr, rfl⟩ := List.mem_map.mp htype
    exact hknown attr hattr
  obtain ⟨table, hwrite, hnum, hread⟩ := fromColumnar_materialize_cells hresult.aligned
    (by simpa using hne) hlen hn hcells htypesKnown fresh hT
  refine ⟨table, global', _, ?_, hread, hperm, ?_, rfl⟩
  · unfold execute
    rw [himpl, ok_bind]
    show (at? _ _ >>= _) = _
    rw [at?_eq_ok hroot, ok_bind, hwrite, ok_bind]
  · rw [hnum, ← hn, hperm.length_eq]

/-- The build sides are as small as the rows that they stand for are few. -/
theorem Plan.Typed.buildsFit {plan : Plan} {tables : List Table} (h : plan.Typed tables)
    (hplan : plan.WellFormed) (hinputs : InputsWritten tables plan.inputs)
    (hstrings : plan.StringsFound tables)
    (hsize : ∀ (idx : Nat) (node : PlanNode) (l r a b : Nat), plan.nodes[idx]? = some node →
      node.data = .join l r a b →
        min (plan.tableEval tables l).length (plan.tableEval tables r).length < 2 ^ 30) :
    plan.BuildsFit := fun idx node l r a b hnode hdata => by
  have hlen := hsize idx node l r a b hnode hdata
  rwa [← (h.related hplan hinputs hstrings l).length_eq,
    ← (h.related hplan hinputs hstrings r).length_eq] at hlen

/-- Whatever the threads do, the table that is decoded from the result of a plan over `INT32` and
`VARCHAR` columns has the rows that the plan means over its tables, with the types of the root. -/
theorem Plan.Typed.execute_decoded {plan : Plan} {tables : List Table} (h : plan.Typed tables)
    (hplan : plan.WellFormed) (hinputs : InputsWritten tables plan.inputs)
    (hstrings : plan.StringsFound tables) {root : PlanNode}
    (hroot : plan.nodes[plan.root]? = some root) (hne : root.outputAttrs ≠ [])
    (hsize : ∀ (idx : Nat) (node : PlanNode) (l r a b : Nat), plan.nodes[idx]? = some node →
      node.data = .join l r a b →
        min (plan.tableEval tables l).length (plan.tableEval tables r).length < 2 ^ 30)
    {numThreads : Nat} (hT : 0 < numThreads) (env : List Bool → NodeEnv)
    (fresh : Nat → Nat → Nat → Page) (global : GlobalAllocator) :
    ∃ table global' result, execute plan numThreads env fresh global = .ok (table, global') ∧
      fromColumnar table = .ok result ∧ result.data.Perm (plan.tableEval tables plan.root) ∧
      table.numRows = (plan.tableEval tables plan.root).length ∧
      result.types = root.outputAttrs.map Prod.snd :=
  hplan.execute_cells (h.inputsScan hinputs hstrings)
    (h.buildsFit hplan hinputs hstrings hsize) (h.related hplan hinputs hstrings plan.root) hroot
    hne (h.known root (List.mem_of_getElem? hroot)) hT env fresh global

/-- A table of numbers with their names, one of which has none. -/
def named : Table := ⟨[[.int32 5, .varchar [97]], [.null, .varchar []]], [.int32, .varchar]⟩

/-- The table on pages, by the inserters. -/
def namedInput : ColumnarTable :=
  ⟨2, [⟨.int32, writeCells (fun _ => Buf.zero 8192) .int32 [.int32 5, .null]⟩,
    ⟨.varchar, writeCells (fun _ => Buf.zero 8192) .varchar [.varchar [97], .varchar []]⟩]⟩

/-- The table joined with itself by number. -/
def nameJoin : Plan where
  nodes := [⟨.scan 0, [(1, .varchar), (0, .int32)]⟩, ⟨.scan 0, [(0, .int32)]⟩,
    ⟨.join 0 1 1 0, [(0, .varchar), (2, .int32)]⟩]
  inputs := [namedInput]
  root := 2

theorem nameJoin_nodes {idx : Nat} {node : PlanNode} (h : nameJoin.nodes[idx]? = some node) :
    idx = 0 ∧ node = ⟨.scan 0, [(1, .varchar), (0, .int32)]⟩ ∨
      idx = 1 ∧ node = ⟨.scan 0, [(0, .int32)]⟩ ∨
      idx = 2 ∧ node = ⟨.join 0 1 1 0, [(0, .varchar), (2, .int32)]⟩ := by
  rcases idx with _ | _ | _ | idx
  · exact .inl ⟨rfl, (Option.some.inj h).symm⟩
  · exact .inr (.inl ⟨rfl, (Option.some.inj h).symm⟩)
  · exact .inr (.inr ⟨rfl, (Option.some.inj h).symm⟩)
  · simp [nameJoin] at h

theorem nameJoin_wellFormed : nameJoin.WellFormed where
  root := by decide
  scan idx node tableId hnode hdata := by
    rcases nameJoin_nodes hnode with ⟨-, rfl⟩ | ⟨-, rfl⟩ | ⟨-, rfl⟩
    · cases hdata
      exact ⟨namedInput, rfl, by simp [PlanNode.attrs, namedInput]⟩
    · cases hdata
      exact ⟨namedInput, rfl, by simp [PlanNode.attrs, namedInput]⟩
    · cases hdata
  join idx node l r a b hnode hdata := by
    rcases nameJoin_nodes hnode with ⟨-, rfl⟩ | ⟨-, rfl⟩ | ⟨rfl, rfl⟩
    · cases hdata
    · cases hdata
    · cases hdata
      simp [PlanNode.attrs, Plan.width, nameJoin]

theorem nameJoin_typed : nameJoin.Typed [named] where
  known := by decide
  scan node hnode tableId t hdata ht attr hattr := by
    obtain ⟨idx, hnode⟩ := List.getElem?_of_mem hnode
    rcases nameJoin_nodes hnode with ⟨-, rfl⟩ | ⟨-, rfl⟩ | ⟨-, rfl⟩
    · cases hdata
      obtain rfl := Option.some.inj ht
      rcases List.mem_pair.mp hattr with rfl | rfl <;> rfl
    · cases hdata
      obtain rfl := Option.some.inj ht
      obtain rfl := List.mem_singleton.mp hattr
      rfl
    · cases hdata
  join node hnode l r a b hdata := by
    obtain ⟨idx, hnode⟩ := List.getElem?_of_mem hnode
    rcases nameJoin_nodes hnode with ⟨-, rfl⟩ | ⟨-, rfl⟩ | ⟨-, rfl⟩
    · cases hdata
    · cases hdata
    · cases hdata
      exact ⟨rfl, rfl, by simp [Plan.types, nameJoin]⟩

theorem namedInput_written : TableWritten named namedInput where
  wellTyped := by simp [named, Table.WellTyped, Data.HasType]
  numRows := rfl
  column a type htype := by
    rcases a with _ | _ | a
    · obtain rfl := Option.some.inj htype
      exact ⟨_, rfl, rfl, fun _ => Buf.zero 8192, .inr rfl⟩
    · obtain rfl := Option.some.inj htype
      exact ⟨_, rfl, rfl, fun _ => Buf.zero 8192, .inr rfl⟩
    · simp [named] at htype

/-- The names have no NULL row, so that the base offsets agree. -/
theorem nameJoin_stringsFound : nameJoin.StringsFound [named] := by
  intro node hnode tableId t input column hdata ht hinput attr hattr hv hcolumn
  have hcell : tableId = 0 ∧ attr.1 = 1 := by
    obtain ⟨idx, hnode⟩ := List.getElem?_of_mem hnode
    rcases nameJoin_nodes hnode with ⟨-, rfl⟩ | ⟨-, rfl⟩ | ⟨-, rfl⟩
    · cases hdata
      rcases List.mem_pair.mp hattr with rfl | rfl
      · exact ⟨rfl, rfl⟩
      · cases hv
    · obtain rfl := List.mem_singleton.mp hattr
      cases hv
    · cases hdata
  obtain ⟨rfl, hattr⟩ := hcell
  obtain rfl := Option.some.inj ht
  obtain rfl := Option.some.inj hinput
  rw [hattr] at hcolumn ⊢
  obtain rfl := Option.some.inj hcolumn
  refine ⟨by decide, by decide, by decide, fun p hp _ => .inl ?_, fun s hs => .inl ?_⟩
  · have hfull : ∀ p ∈ writeCells (fun _ => Buf.zero 8192) .varchar [.varchar [97], .varchar []],
        p.u16 0 = p.u16 2 := by decide
    exact hfull p hp
  · have hlast : Data.varchar [] = .varchar s := Option.some.inj hs
    cases hlast
    exact Nat.zero_le _

theorem nameJoin_tableEval :
    nameJoin.tableEval [named] 2 = [[.varchar [97], .int32 5]] := by
  unfold Plan.tableEval
  rw [evalNode_join rfl rfl (by decide) (by decide), evalNode_scan rfl rfl, evalNode_scan rfl rfl]
  decide

theorem Plan.Typed.execute_decoded_nameJoin : ∃ table global' result,
    execute nameJoin 3 (fun _ => ⟨⟨⟨4096, by decide, fun _ => ⟨0, 0⟩, [], []⟩, [2, 0, 1]⟩,
        fun _ _ _ => 7⟩) (fun _ _ _ => Buf.zero 8192) {} = .ok (table, global') ∧
      fromColumnar table = .ok result ∧ result.data.Perm [[.varchar [97], .int32 5]] ∧
      table.numRows = 1 ∧ result.types = [.varchar, .int32] := by
  have hsize : ∀ (idx : Nat) (node : PlanNode) (l r a b : Nat), nameJoin.nodes[idx]? = some node →
      node.data = .join l r a b → min (nameJoin.tableEval [named] l).length
        (nameJoin.tableEval [named] r).length < 2 ^ 30 := by
    intro idx node l r a b hnode hdata
    rcases nameJoin_nodes hnode with ⟨-, rfl⟩ | ⟨-, rfl⟩ | ⟨-, rfl⟩
    · cases hdata
    · cases hdata
    · cases hdata
      have hscan : nameJoin.nodes[0]? = some ⟨.scan 0, [(1, .varchar), (0, .int32)]⟩ := rfl
      unfold Plan.tableEval
      rw [evalNode_scan hscan rfl]
      exact lt_of_le_of_lt (Nat.min_le_left _ _) (by decide)
  have hall := Plan.Typed.execute_decoded nameJoin_typed nameJoin_wellFormed
    (.cons namedInput_written .nil) nameJoin_stringsFound rfl (by simp) hsize
    (show 0 < 3 by decide)
    (fun _ => ⟨⟨⟨4096, by decide, fun _ => ⟨0, 0⟩, [], []⟩, [2, 0, 1]⟩, fun _ _ _ => 7⟩)
    (fun _ _ _ => Buf.zero 8192) {}
  have hroot : nameJoin.root = 2 := rfl
  rw [hroot, nameJoin_tableEval] at hall
  exact hall

end HashJoin
