import HashJoin.JoinUnion
import HashJoin.LoadPipelineProof
import HashJoin.WhereClause

/-!
# The join conditions of a generated plan

A join of a generated plan checks one edge of the join graph. A row of a node is made of one row of
each table below the node, and the rows of a node are all these combinations in which the edges of
the joins below it hold. The edges of a plan that scans each table once join the tables two at a
time.
-/

namespace HashJoin

open Relational UnionFind

/-! ## Running a plan -/

namespace Pipeline

section Rows

variable {α K : Type} [DecidableEq K] (key : α → Option K) (tables : Nat → List (List α))

/-- The rows of a node, each with the rows of the inputs that it is made of. -/
def evalRows (ret : Pipeline) (nodeIdx : Nat) : List (List α × List (Nat × List α)) :=
  foldNode
    (fun node inputId => (tables inputId).map fun row => (project node.attrs row, [(inputId, row)]))
    (fun node leftAttr rightAttr left right => left.flatMap fun l =>
      (right.filter fun r => Matches key leftAttr rightAttr l.1 r.1).map fun r =>
        (project node.attrs (l.1 ++ r.1), l.2 ++ r.2))
    [] ret.nodes nodeIdx

variable {key tables} {ret : Pipeline} {nodeIdx : Nat} {node : PlanNode}

/-- The rows of a node are those of the meaning of the plan. -/
theorem map_fst_evalRows (ret : Pipeline) (nodeIdx : Nat) :
    (ret.evalRows key tables nodeIdx).map Prod.fst =
      evalNode key (fun inputId attrs => (tables inputId).map (project attrs))
        ret.nodes nodeIdx := by
  induction nodeIdx using Nat.strong_induction_on with
  | _ nodeIdx ih =>
    unfold evalRows at ih ⊢
    unfold foldNode
    rw [evalNode]
    cases hnode : ret.nodes[nodeIdx]? with
    | none => rfl
    | some node =>
      simp only
      cases hdata : node.data with
      | scan inputId => simp [Function.comp_def]
      | join l r a b =>
        simp only
        split
        · next h =>
          rw [← ih l h.1, ← ih r h.2]
          simp [equiJoin, List.map_flatMap, List.flatMap_map, List.filter_map, Function.comp_def]
        · rfl

theorem mem_evalRows_scan (hnode : ret.nodes[nodeIdx]? = some node) {inputId : Nat}
    (hdata : node.data = .scan inputId) {out : List α × List (Nat × List α)} :
    out ∈ ret.evalRows key tables nodeIdx ↔
      ∃ row ∈ tables inputId, out = (project node.attrs row, [(inputId, row)]) := by
  unfold evalRows
  rw [foldNode_scan hnode hdata, List.mem_map]
  simp only [eq_comm]

theorem mem_evalRows_join (hnode : ret.nodes[nodeIdx]? = some node) {l r a b : Nat}
    (hdata : node.data = .join l r a b) (hl : l < nodeIdx) (hr : r < nodeIdx)
    {out : List α × List (Nat × List α)} :
    out ∈ ret.evalRows key tables nodeIdx ↔ ∃ x ∈ ret.evalRows key tables l,
      ∃ y ∈ ret.evalRows key tables r, Matches key a b x.1 y.1 ∧
        out = (project node.attrs (x.1 ++ y.1), x.2 ++ y.2) := by
  unfold evalRows
  rw [foldNode_join hnode hdata hl hr]
  simp only [List.mem_flatMap, List.mem_map, List.mem_filter, decide_eq_true_eq]
  constructor
  · rintro ⟨x, hx, y, ⟨hy, hmatches⟩, rfl⟩
    exact ⟨x, hx, y, hy, hmatches, rfl⟩
  · rintro ⟨x, hx, y, hy, hmatches, rfl⟩
    exact ⟨x, hx, y, ⟨hy, hmatches⟩, rfl⟩

end Rows

/-! ## The rows of the tables -/

section Sources

variable {ret : Pipeline} {nodeIdx : Nat} {node : PlanNode} {α : Type}

/-- The row of an entity among the rows of the inputs. -/
def rowsOf (ret : Pipeline) (sources : List (Nat × List α)) (entity : TableEntity) : List α :=
  match sources.find? fun source => ret.inputs[source.1]?.map Prod.fst = some entity with
  | some source => source.2
  | none => []

/-- The entities of some inputs. -/
def entitiesAt (ret : Pipeline) (inputIds : List Nat) : List TableEntity :=
  inputIds.filterMap fun inputId => ret.inputs[inputId]?.map Prod.fst

theorem rowsOf_append_left {l r : List (Nat × List α)} {entity : TableEntity}
    (h : entity ∈ ret.entitiesAt (l.map Prod.fst)) :
    ret.rowsOf (l ++ r) entity = ret.rowsOf l entity := by
  obtain ⟨inputId, hid, hentity⟩ := List.mem_filterMap.mp h
  obtain ⟨source, hsource, rfl⟩ := List.mem_map.mp hid
  have hsome : (l.find? fun source => ret.inputs[source.1]?.map Prod.fst = some entity).isSome :=
    List.find?_isSome.mpr ⟨source, hsource, by simpa using hentity⟩
  unfold rowsOf
  rw [List.find?_append]
  cases hfind : l.find? fun source => ret.inputs[source.1]?.map Prod.fst = some entity with
  | none => simp [hfind] at hsome
  | some found => rfl

theorem rowsOf_append_right {l r : List (Nat × List α)} {entity : TableEntity}
    (h : entity ∉ ret.entitiesAt (l.map Prod.fst)) :
    ret.rowsOf (l ++ r) entity = ret.rowsOf r entity := by
  have hnone : (l.find? fun source => ret.inputs[source.1]?.map Prod.fst = some entity) = none := by
    rw [List.find?_eq_none]
    intro source hsource hentity
    refine h (List.mem_filterMap.mpr ⟨source.1, List.mem_map_of_mem hsource, ?_⟩)
    simpa using hentity
  unfold rowsOf
  rw [List.find?_append, hnone, Option.none_or]

end Sources

end Pipeline

/-- The value of a column in the rows of the tables. -/
def OutputColumn.valueIn (rows : TableEntity → List Data) (col : OutputColumn) : Data :=
  columnValue rows col.column col.entity

theorem columnValue_congr {rows rows' : TableEntity → List Data} {entity : TableEntity}
    (h : rows entity = rows' entity) (column : String) :
    columnValue rows column entity = columnValue rows' column entity := by
  unfold columnValue
  rw [h]

/-- Values join if they are equal and not NULL. -/
def joinKey (data : Data) : Option Data := if data = .null then none else some data

theorem matches_joinKey {a b : Nat} {l r : List Data} {x y : Data} (hx : l[a]? = some x)
    (hy : r[b]? = some y) : Matches joinKey a b l r ↔ x.equates y = true := by
  unfold Matches
  rw [hx, hy]
  by_cases hnull : x = .null
  · simp [joinKey, Data.equates, hnull]
  · by_cases hnull' : y = .null
    · simp [joinKey, Data.equates, hnull, hnull']
    · simp [joinKey, Data.equates, hnull, hnull']

/-! ## Nodes one by one -/

namespace Pipeline

/-- The columns that a join compares. -/
def nodeEdge (ret : Pipeline) (node : PlanNode) : List (OutputColumn × OutputColumn) :=
  match node.data with
  | .scan _ => []
  | .join left right leftAttr rightAttr =>
    match (ret.columnsOf left)[leftAttr]?, (ret.columnsOf right)[rightAttr]? with
    | some leftCol, some rightCol => [(leftCol, rightCol)]
    | _, _ => []

/-- The columns that the joins below a node compare. -/
def edgesOf (ret : Pipeline) (nodeIdx : Nat) : List (OutputColumn × OutputColumn) :=
  foldNode (fun _ _ => []) (fun node _ _ left right => left ++ right ++ ret.nodeEdge node) []
    ret.nodes nodeIdx

/-- A scan of a generated plan. -/
structure IsScan (ret : Pipeline) (nodeIdx : Nat) (node : PlanNode) (inputId : Nat) : Prop where
  at_nodes : ret.nodes[nodeIdx]? = some node
  data : node.data = .scan inputId
  input : inputId < ret.inputs.length

/-- A join of a generated plan, with the columns of its edge. -/
structure IsJoin (sql : ParsedSQL) (ret : Pipeline) (nodeIdx : Nat) (node : PlanNode)
    (left right leftAttr rightAttr : Nat) (leftCol rightCol : OutputColumn) : Prop where
  at_nodes : ret.nodes[nodeIdx]? = some node
  data : node.data = .join left right leftAttr rightAttr
  left_lt : left < nodeIdx
  right_lt : right < nodeIdx
  left_column : (ret.columnsOf left)[leftAttr]? = some leftCol
  right_column : (ret.columnsOf right)[rightAttr]? = some rightCol
  left_mem : leftCol.entity ∈ ret.entitiesOf left
  right_mem : rightCol.entity ∈ ret.entitiesOf right
  edge : sql.joinGraph (leftCol.entity, rightCol.entity) = some (leftCol.column, rightCol.column)

section Nodes

variable {sql : ParsedSQL} {ret : Pipeline}

/-- What holds of scans, and of joins if it holds of their sides, holds of all nodes. -/
theorem NodesOk.induct (hok : ret.NodesOk sql 0) (hvalid : ret.Valid) {motive : Nat → Prop}
    (scan : ∀ nodeIdx node inputId, ret.IsScan nodeIdx node inputId → motive nodeIdx)
    (join : ∀ nodeIdx node left right leftAttr rightAttr leftCol rightCol,
      IsJoin sql ret nodeIdx node left right leftAttr rightAttr leftCol rightCol →
      motive left → motive right → motive nodeIdx) :
    ∀ nodeIdx < ret.nodes.length, motive nodeIdx := by
  intro nodeIdx
  induction nodeIdx using Nat.strong_induction_on with
  | _ nodeIdx ih =>
    intro hlt
    obtain ⟨node, required, hnode, -, hnodeOk⟩ := hok nodeIdx (Nat.zero_le _) hlt
    cases hdata : node.data with
    | scan inputId =>
      have hinput := hvalid.inputs node (List.mem_of_getElem? hnode) inputId hdata
      exact scan nodeIdx node inputId ⟨hnode, hdata, hinput⟩
    | join left right leftAttr rightAttr =>
      obtain ⟨hl, hr⟩ := hnodeOk.children left right leftAttr rightAttr hdata
      obtain ⟨leftCol, rightCol, hleftCol, hrightCol, hleft, hright, hedge⟩ :=
        hnodeOk.edge left right leftAttr rightAttr hdata
      exact join nodeIdx node left right leftAttr rightAttr leftCol rightCol
        ⟨hnode, hdata, hl, hr, hleftCol, hrightCol, hleft, hright, hedge⟩
        (ih left hl (hl.trans hlt)) (ih right hr (hr.trans hlt))

section Scan

variable {nodeIdx : Nat} {node : PlanNode} {inputId : Nat} (h : ret.IsScan nodeIdx node inputId)
include h

theorem IsScan.inputsOf : ret.inputsOf nodeIdx = [inputId] := foldNode_scan h.at_nodes h.data

theorem IsScan.columnsOf : ret.columnsOf nodeIdx = project node.attrs (ret.inputColumns inputId) :=
  foldNode_scan h.at_nodes h.data

theorem IsScan.edgesOf : ret.edgesOf nodeIdx = [] := foldNode_scan h.at_nodes h.data

theorem IsScan.entitiesOf : ret.entitiesOf nodeIdx = [(ret.inputs.get ⟨inputId, h.input⟩).1] := by
  unfold Pipeline.entitiesOf
  rw [h.inputsOf, List.filterMap_cons, List.getElem?_eq_getElem h.input]
  rfl

end Scan

section Join

variable {nodeIdx : Nat} {node : PlanNode} {left right leftAttr rightAttr : Nat}
  {leftCol rightCol : OutputColumn}
  (h : IsJoin sql ret nodeIdx node left right leftAttr rightAttr leftCol rightCol)
include h

theorem IsJoin.lt : nodeIdx < ret.nodes.length := (List.getElem?_eq_some_iff.mp h.at_nodes).1

theorem IsJoin.inputsOf : ret.inputsOf nodeIdx = ret.inputsOf left ++ ret.inputsOf right :=
  foldNode_join h.at_nodes h.data h.left_lt h.right_lt

theorem IsJoin.entitiesOf :
    ret.entitiesOf nodeIdx = ret.entitiesOf left ++ ret.entitiesOf right := by
  unfold Pipeline.entitiesOf
  rw [h.inputsOf, List.filterMap_append]

theorem IsJoin.columnsOf : ret.columnsOf nodeIdx =
    project node.attrs (ret.columnsOf left ++ ret.columnsOf right) :=
  foldNode_join h.at_nodes h.data h.left_lt h.right_lt

theorem IsJoin.edgesOf :
    ret.edgesOf nodeIdx = ret.edgesOf left ++ ret.edgesOf right ++ [(leftCol, rightCol)] := by
  have hedge : ret.nodeEdge node = [(leftCol, rightCol)] := by
    simp only [nodeEdge, h.data, h.left_column, h.right_column]
  rw [← hedge]
  exact foldNode_join h.at_nodes h.data h.left_lt h.right_lt

end Join

/-- A node returns columns of the tables below it. -/
theorem NodesOk.columns_entities (hok : ret.NodesOk sql 0) (hvalid : ret.Valid) :
    ∀ nodeIdx < ret.nodes.length, ∀ col ∈ ret.columnsOf nodeIdx,
      col.entity ∈ ret.entitiesOf nodeIdx := by
  refine hok.induct hvalid ?_ ?_
  · intro nodeIdx node inputId h col hcol
    rw [h.columnsOf] at hcol
    have hcol := mem_of_mem_project hcol
    rw [h.entitiesOf, List.mem_singleton]
    unfold inputColumns at hcol
    rw [List.getElem?_eq_getElem h.input] at hcol
    simp only at hcol
    split at hcol
    · obtain ⟨attr, -, rfl⟩ := List.mem_map.mp hcol
      rfl
    · cases hcol
  · intro nodeIdx node left right leftAttr rightAttr leftCol rightCol h ihl ihr col hcol
    rw [h.columnsOf] at hcol
    rw [h.entitiesOf, List.mem_append]
    exact (List.mem_append.mp (mem_of_mem_project hcol)).imp (ihl col) (ihr col)

/-- The joins compare columns of the tables below, on the edges of the join graph. -/
theorem NodesOk.edges (hok : ret.NodesOk sql 0) (hvalid : ret.Valid) :
    ∀ nodeIdx < ret.nodes.length, ∀ edge ∈ ret.edgesOf nodeIdx,
      edge.1.entity ∈ ret.entitiesOf nodeIdx ∧ edge.2.entity ∈ ret.entitiesOf nodeIdx ∧
      sql.joinGraph (edge.1.entity, edge.2.entity) = some (edge.1.column, edge.2.column) := by
  refine hok.induct hvalid ?_ ?_
  · intro nodeIdx node inputId h edge hedge
    rw [h.edgesOf] at hedge
    cases hedge
  · intro nodeIdx node left right leftAttr rightAttr leftCol rightCol h ihl ihr
    rw [h.edgesOf, List.forall_mem_append, List.forall_mem_append, List.forall_mem_singleton,
      h.entitiesOf]
    simp only [List.mem_append]
    refine ⟨⟨fun edge hedge => ?_, fun edge hedge => ?_⟩, .inl h.left_mem, .inr h.right_mem, h.edge⟩
    · obtain ⟨h₁, h₂, h₃⟩ := ihl edge hedge
      exact ⟨.inl h₁, .inl h₂, h₃⟩
    · obtain ⟨h₁, h₂, h₃⟩ := ihr edge hedge
      exact ⟨.inr h₁, .inr h₂, h₃⟩

/-- The joins of a plan that scans each table once join the tables two at a time. -/
theorem NodesOk.joinTree (hok : ret.NodesOk sql 0) (hvalid : ret.Valid) {α : Type}
    (part : α → Option TableEntity) (number : OutputColumn → α)
    (hpart : ∀ left right columns, sql.joinGraph (left, right) = some columns →
      ∀ t t', part (number ⟨left, columns.1, t⟩) = some left ∧
        part (number ⟨right, columns.2, t'⟩) = some right) :
    ∀ nodeIdx < ret.nodes.length, JoinTree part ((ret.entitiesOf nodeIdx).map some)
      ((ret.edgesOf nodeIdx).map fun edge => (number edge.1, number edge.2)) := by
  refine hok.induct hvalid ?_ ?_
  · intro nodeIdx node inputId h
    rw [h.edgesOf, h.entitiesOf]
    exact .part _
  · intro nodeIdx node left right leftAttr rightAttr leftCol rightCol h ihl ihr
    rw [h.edgesOf, h.entitiesOf, List.map_append, List.map_append, List.map_append]
    obtain ⟨hl, hr⟩ := hpart _ _ _ h.edge leftCol.type rightCol.type
    refine .join ihl ihr ?_ ?_
    · rw [hl]
      exact List.mem_map_of_mem h.left_mem
    · rw [hr]
      exact List.mem_map_of_mem h.right_mem

end Nodes

/-! ## The rows of a node -/

end Pipeline

/-- A row has a value for each attribute. -/
def HasWidth (attributes : List Attribute) (row : List Data) : Prop :=
  row.length = attributes.length

namespace Pipeline

/-- The rows of each input fit to the attributes of its table. -/
def TablesFit (ret : Pipeline) (RowFits : List Attribute → List Data → Prop)
    (tables : Nat → List (List Data)) : Prop :=
  ∀ inputId entity filter, ret.inputs[inputId]? = some (entity, filter) →
    ∃ attributes, attributesMap entity.table = some attributes ∧
      ∀ row ∈ tables inputId, RowFits attributes row

/-- Two columns are equal and not NULL in some rows of the tables. -/
def EdgeHolds (ret : Pipeline) (sources : List (Nat × List Data))
    (edge : OutputColumn × OutputColumn) : Prop :=
  (edge.1.valueIn (ret.rowsOf sources)).equates (edge.2.valueIn (ret.rowsOf sources)) = true

/-- A row of a node is made of one row of each table below it, and all joins below it hold of
them. -/
structure Combines (ret : Pipeline) (tables : Nat → List (List Data)) (nodeIdx : Nat)
    (out : List Data × List (Nat × List Data)) : Prop where
  inputs : out.2.map Prod.fst = ret.inputsOf nodeIdx
  sources : ∀ source ∈ out.2, source.2 ∈ tables source.1
  edges : ∀ edge ∈ ret.edgesOf nodeIdx, ret.EdgeHolds out.2 edge
  values : out.1 = (ret.columnsOf nodeIdx).map (OutputColumn.valueIn (ret.rowsOf out.2))

end Pipeline

/-- A column of a table is at its own place in a row. -/
theorem map_valueIn_tableColumns {rows : TableEntity → List Data} {entity : TableEntity}
    {attributes : List Attribute} (hattributes : attributesMap entity.table = some attributes)
    (hlen : (rows entity).length = attributes.length) :
    (tableColumns entity attributes).map (OutputColumn.valueIn rows) = rows entity := by
  apply List.ext_getElem (by simp [tableColumns, hlen])
  intro i hi hi'
  have hia : i < attributes.length := hlen ▸ hi'
  have hidx : attributes.findIdx? (·.name = attributes[i].name) = some i := by
    rw [List.findIdx?_eq_some_iff_getElem]
    refine ⟨hia, by simp, fun j hji => ?_⟩
    have hne := List.nodup_iff_injective_getElem.mp (attributesMap_nodup hattributes)
    simp only [decide_eq_true_eq]
    intro heq
    have := @hne ⟨j, by simp; omega⟩ ⟨i, by simpa using hia⟩ (by simpa using heq)
    simp at this
    omega
  simp only [tableColumns, List.getElem_map, OutputColumn.valueIn, columnValue]
  rw [columnIdx_eq_ok.mpr ⟨attributes, hattributes, hidx⟩]
  simp [List.getD_eq_getElem?_getD, hi']

namespace Pipeline

section EvalRows

variable {sql : ParsedSQL} {ret : Pipeline} {tables : Nat → List (List Data)}

theorem TablesFit.map_valueIn (hfit : ret.TablesFit HasWidth tables) {inputId : Nat}
    (hlt : inputId < ret.inputs.length) {row : List Data} (hrow : row ∈ tables inputId) :
    (ret.inputColumns inputId).map (OutputColumn.valueIn (ret.rowsOf [(inputId, row)])) = row := by
  obtain ⟨⟨entity, filter⟩, hget⟩ : ∃ input, ret.inputs[inputId]? = some input :=
    ⟨_, List.getElem?_eq_getElem hlt⟩
  obtain ⟨attributes, hattributes, hlen⟩ := hfit inputId entity filter hget
  have hown : ret.rowsOf [(inputId, row)] entity = row := by
    simp [rowsOf, hget]
  unfold inputColumns
  rw [hget]
  simp only [hattributes]
  rw [map_valueIn_tableColumns hattributes (by rw [hown, hlen row hrow]), hown]

theorem IsScan.combines_iff {nodeIdx : Nat} {node : PlanNode} {inputId : Nat}
    (h : ret.IsScan nodeIdx node inputId) (hfit : ret.TablesFit HasWidth tables)
    {out : List Data × List (Nat × List Data)} :
    ret.Combines tables nodeIdx out ↔
      ∃ row ∈ tables inputId, out = (project node.attrs row, [(inputId, row)]) := by
  have hvalues : ∀ row ∈ tables inputId,
      (ret.columnsOf nodeIdx).map (OutputColumn.valueIn (ret.rowsOf [(inputId, row)])) =
        project node.attrs row := fun row hrow => by
    rw [h.columnsOf, ← project_map, hfit.map_valueIn h.input hrow]
  constructor
  · intro hout
    obtain ⟨⟨inputId', row⟩, hsources, rfl⟩ := List.map_eq_singleton_iff.mp
      (hout.inputs.trans h.inputsOf)
    have hrow : row ∈ tables inputId' := hout.sources (inputId', row) (by simp [hsources])
    refine ⟨row, hrow, Prod.ext ?_ hsources⟩
    rw [hout.values, hsources]
    exact hvalues row hrow
  · rintro ⟨row, hrow, rfl⟩
    refine ⟨h.inputsOf.symm, by simpa using hrow, ?_, (hvalues row hrow).symm⟩
    rw [h.edgesOf]
    simp

/-- The columns of two sides have their values in the rows of their sides. -/
theorem valueIn_append {left right : Nat}
    (hdisj : List.Disjoint (ret.entitiesOf left) (ret.entitiesOf right))
    {l : List (Nat × List Data)} (hl : l.map Prod.fst = ret.inputsOf left)
    (r : List (Nat × List Data)) :
    (∀ col : OutputColumn, col.entity ∈ ret.entitiesOf left →
      col.valueIn (ret.rowsOf (l ++ r)) = col.valueIn (ret.rowsOf l)) ∧
    ∀ col : OutputColumn, col.entity ∈ ret.entitiesOf right →
      col.valueIn (ret.rowsOf (l ++ r)) = col.valueIn (ret.rowsOf r) := by
  have hat : ret.entitiesAt (l.map Prod.fst) = ret.entitiesOf left := by
    rw [hl]
    rfl
  constructor
  · intro col hcol
    exact columnValue_congr (rowsOf_append_left (by rwa [hat])) _
  · intro col hcol
    exact columnValue_congr (rowsOf_append_right (by rw [hat]; exact fun hl => hdisj hl hcol)) _

section Join

variable {nodeIdx : Nat} {node : PlanNode} {left right leftAttr rightAttr : Nat}
  {leftCol rightCol : OutputColumn}
  (h : IsJoin sql ret nodeIdx node left right leftAttr rightAttr leftCol rightCol)
  (hok : ret.NodesOk sql 0) (hvalid : ret.Valid)
  (hdisj : List.Disjoint (ret.entitiesOf left) (ret.entitiesOf right))
  {l r : List (Nat × List Data)} (hl : l.map Prod.fst = ret.inputsOf left)
include h hok hvalid hdisj

include hl in
theorem IsJoin.map_valueIn :
    (ret.columnsOf nodeIdx).map (OutputColumn.valueIn (ret.rowsOf (l ++ r))) =
      project node.attrs ((ret.columnsOf left).map (OutputColumn.valueIn (ret.rowsOf l)) ++
        (ret.columnsOf right).map (OutputColumn.valueIn (ret.rowsOf r))) := by
  obtain ⟨hvaluel, hvaluer⟩ := valueIn_append hdisj hl r
  have hcolumns := hok.columns_entities hvalid
  rw [h.columnsOf, ← project_map, List.map_append]
  congr 2
  · exact List.map_congr_left fun col hcol =>
      hvaluel col (hcolumns left (h.left_lt.trans h.lt) col hcol)
  · exact List.map_congr_left fun col hcol =>
      hvaluer col (hcolumns right (h.right_lt.trans h.lt) col hcol)

include hl in
theorem IsJoin.edges_hold_iff : (∀ edge ∈ ret.edgesOf nodeIdx, ret.EdgeHolds (l ++ r) edge) ↔
    ((∀ edge ∈ ret.edgesOf left, ret.EdgeHolds l edge) ∧
      ∀ edge ∈ ret.edgesOf right, ret.EdgeHolds r edge) ∧
    (leftCol.valueIn (ret.rowsOf l)).equates (rightCol.valueIn (ret.rowsOf r)) = true := by
  obtain ⟨hvaluel, hvaluer⟩ := valueIn_append hdisj hl r
  have hedges := hok.edges hvalid
  rw [h.edgesOf, List.forall_mem_append, List.forall_mem_append, List.forall_mem_singleton]
  refine and_congr (and_congr ?_ ?_) ?_
  · apply forall₂_congr
    intro edge hedge
    obtain ⟨h₁, h₂, -⟩ := hedges left (h.left_lt.trans h.lt) edge hedge
    rw [EdgeHolds, EdgeHolds, hvaluel _ h₁, hvaluel _ h₂]
  · apply forall₂_congr
    intro edge hedge
    obtain ⟨h₁, h₂, -⟩ := hedges right (h.right_lt.trans h.lt) edge hedge
    rw [EdgeHolds, EdgeHolds, hvaluer _ h₁, hvaluer _ h₂]
  · unfold EdgeHolds
    rw [hvaluel _ h.left_mem, hvaluer _ h.right_mem]

/-- The rows of a join are those of its sides with equal columns. -/
theorem IsJoin.combines_iff {out : List Data × List (Nat × List Data)} :
    ret.Combines tables nodeIdx out ↔ ∃ x, ret.Combines tables left x ∧
      ∃ y, ret.Combines tables right y ∧ Matches joinKey leftAttr rightAttr x.1 y.1 ∧
        out = (project node.attrs (x.1 ++ y.1), x.2 ++ y.2) := by
  have hmatches : ∀ l r : List (Nat × List Data), Matches joinKey leftAttr rightAttr
        ((ret.columnsOf left).map (OutputColumn.valueIn (ret.rowsOf l)))
        ((ret.columnsOf right).map (OutputColumn.valueIn (ret.rowsOf r))) ↔
      (leftCol.valueIn (ret.rowsOf l)).equates (rightCol.valueIn (ret.rowsOf r)) = true :=
    fun l r => matches_joinKey (by rw [List.getElem?_map, h.left_column]; rfl)
      (by rw [List.getElem?_map, h.right_column]; rfl)
  constructor
  · intro hout
    obtain ⟨l, r, hsources, hl, hr⟩ := List.map_eq_append_iff.mp (hout.inputs.trans h.inputsOf)
    have hmem := hout.sources
    have hedges := hout.edges
    have hvalues := hout.values
    rw [hsources, List.forall_mem_append] at hmem
    rw [hsources, h.edges_hold_iff hok hvalid hdisj hl] at hedges
    rw [hsources, h.map_valueIn hok hvalid hdisj hl] at hvalues
    exact ⟨(_, l), ⟨hl, hmem.1, hedges.1.1, rfl⟩, (_, r), ⟨hr, hmem.2, hedges.1.2, rfl⟩,
      (hmatches l r).mpr hedges.2, Prod.ext hvalues hsources⟩
  · rintro ⟨⟨x, l⟩, hx, ⟨y, r⟩, hy, hxy, rfl⟩
    obtain ⟨hl, hmeml, hedgesl, hvaluesl⟩ := hx
    obtain ⟨hr, hmemr, hedgesr, hvaluesr⟩ := hy
    simp only at hl hmeml hedgesl hvaluesl hr hmemr hedgesr hvaluesr hxy ⊢
    subst hvaluesl
    subst hvaluesr
    refine ⟨?_, ?_, ?_, ?_⟩
    · rw [List.map_append, h.inputsOf, hl, hr]
    · exact List.forall_mem_append.mpr ⟨hmeml, hmemr⟩
    · exact (h.edges_hold_iff hok hvalid hdisj hl).mpr
        ⟨⟨hedgesl, hedgesr⟩, (hmatches l r).mp hxy⟩
    · exact (h.map_valueIn hok hvalid hdisj hl).symm

end Join

/-- The rows of a node are all that combine rows of the tables in this way. -/
theorem NodesOk.mem_evalRows (hok : ret.NodesOk sql 0) (hvalid : ret.Valid)
    (hfit : ret.TablesFit HasWidth tables) : ∀ nodeIdx < ret.nodes.length,
      (ret.entitiesOf nodeIdx).Nodup → ∀ out,
        out ∈ ret.evalRows joinKey tables nodeIdx ↔ ret.Combines tables nodeIdx out := by
  refine hok.induct hvalid ?_ ?_
  · intro nodeIdx node inputId h _ out
    rw [mem_evalRows_scan h.at_nodes h.data, h.combines_iff hfit]
  · intro nodeIdx node left right leftAttr rightAttr leftCol rightCol h ihl ihr hnodup out
    rw [h.entitiesOf, List.nodup_append'] at hnodup
    obtain ⟨hnodupl, hnodupr, hdisj⟩ := hnodup
    rw [mem_evalRows_join h.at_nodes h.data h.left_lt h.right_lt, h.combines_iff hok hvalid hdisj]
    simp only [ihl hnodupl, ihr hnodupr]

end EvalRows

end Pipeline

end HashJoin
