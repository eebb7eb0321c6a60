import HashJoin.LoadPipeline

/-!
# The columns of a generated plan

Each node of a generated plan returns the attributes it was made for, in their order. This is read
off the plan alone: `columnsOf` follows the positions in the nodes down to the columns of the
tables. The tables of the scans are loaded one after another, and what loads them makes no
difference to the plan.
-/

namespace HashJoin

open Relational

/-! ## Going through a plan -/

/-- A value computed from the root of a plan on. A child comes before its node. -/
def foldNode {β : Type} (scan : PlanNode → Nat → β) (join : PlanNode → Nat → Nat → β → β → β)
    (default : β) (nodes : List PlanNode) (nodeIdx : Nat) : β :=
  match nodes[nodeIdx]? with
  | none => default
  | some node =>
    match node.data with
    | .scan baseTableId => scan node baseTableId
    | .join left right leftAttr rightAttr =>
      if _h : left < nodeIdx ∧ right < nodeIdx then
        join node leftAttr rightAttr (foldNode scan join default nodes left)
          (foldNode scan join default nodes right)
      else default
termination_by nodeIdx

section Fold

variable {β : Type} {scan : PlanNode → Nat → β} {join : PlanNode → Nat → Nat → β → β → β}
  {default : β} {nodes : List PlanNode} {nodeIdx : Nat} {node : PlanNode}

theorem foldNode_scan (hnode : nodes[nodeIdx]? = some node) {tableId : Nat}
    (hdata : node.data = .scan tableId) :
    foldNode scan join default nodes nodeIdx = scan node tableId := by
  rw [foldNode, hnode]
  simp only [hdata]

theorem foldNode_join (hnode : nodes[nodeIdx]? = some node) {l r a b : Nat}
    (hdata : node.data = .join l r a b) (hl : l < nodeIdx) (hr : r < nodeIdx) :
    foldNode scan join default nodes nodeIdx =
      join node a b (foldNode scan join default nodes l) (foldNode scan join default nodes r) := by
  rw [foldNode, hnode]
  simp only [hdata]
  rw [dif_pos ⟨hl, hr⟩]

/-- An element of a list is at its place in a longer one. -/
theorem getElem?_extended {α : Type} {l l' : List α} (h : l <+: l') {i : Nat} (hi : i < l.length) :
    l'[i]? = l[i]? := by
  rw [List.getElem?_eq_getElem hi, List.getElem?_eq_getElem (lt_of_lt_of_le hi h.length_le),
    h.getElem]

/-- New nodes at the end do not change the value at a node that was there. -/
theorem foldNode_extended {scan' : PlanNode → Nat → β} {nodes' : List PlanNode}
    (hextended : nodes <+: nodes') (hscan : ∀ node ∈ nodes, ∀ tableId, node.data = .scan tableId →
      scan' node tableId = scan node tableId) (hlt : nodeIdx < nodes.length) :
    foldNode scan' join default nodes' nodeIdx = foldNode scan join default nodes nodeIdx := by
  induction nodeIdx using Nat.strong_induction_on with
  | _ nodeIdx ih =>
    have hnode : nodes[nodeIdx]? = some nodes[nodeIdx] := List.getElem?_eq_getElem hlt
    rw [foldNode, foldNode, getElem?_extended hextended hlt, hnode]
    simp only
    cases hdata : nodes[nodeIdx].data with
    | scan tableId => exact hscan _ (List.getElem_mem hlt) tableId hdata
    | join l r a b =>
      simp only
      split
      · next h => rw [ih l h.1 (by omega), ih r h.2 (by omega)]
      · rfl

end Fold

namespace Pipeline

/-- The columns of an input. -/
def inputColumns (ret : Pipeline) (inputId : Nat) : List OutputColumn :=
  match ret.inputs[inputId]? with
  | some (entity, _) =>
    match attributesMap entity.table with
    | some attributes => tableColumns entity attributes
    | none => []
  | none => []

/-- The columns that a node returns by its positions: those of its table, or of the columns of its
left child followed by those of its right child. -/
def columnsOf (ret : Pipeline) (nodeIdx : Nat) : List OutputColumn :=
  foldNode (fun node inputId => project node.attrs (ret.inputColumns inputId))
    (fun node _ _ left right => project node.attrs (left ++ right)) [] ret.nodes nodeIdx

/-- The inputs that are scanned below a node. -/
def inputsOf (ret : Pipeline) (nodeIdx : Nat) : List Nat :=
  foldNode (fun _ inputId => [inputId]) (fun _ _ _ left right => left ++ right) [] ret.nodes nodeIdx

/-- The tables that are scanned below a node. -/
def entitiesOf (ret : Pipeline) (nodeIdx : Nat) : List TableEntity :=
  (ret.inputsOf nodeIdx).filterMap fun inputId => ret.inputs[inputId]?.map Prod.fst

/-- `ret'` is `ret` with more at the ends. -/
structure Extends (ret ret' : Pipeline) : Prop where
  nodes : ret.nodes <+: ret'.nodes
  inputs : ret.inputs <+: ret'.inputs
  required : ret.required <+: ret'.required

theorem Extends.trans {ret₁ ret₂ ret₃ : Pipeline} (h : ret₁.Extends ret₂)
    (h' : ret₂.Extends ret₃) : ret₁.Extends ret₃ :=
  ⟨h.nodes.trans h'.nodes, h.inputs.trans h'.inputs, h.required.trans h'.required⟩

/-- Each node has its required attributes, and each scan its input. -/
structure Valid (ret : Pipeline) : Prop where
  required : ret.required.length = ret.nodes.length
  inputs : ∀ node ∈ ret.nodes, ∀ inputId, node.data = .scan inputId → inputId < ret.inputs.length

theorem Valid.empty : Valid {} := ⟨rfl, by simp⟩

section Extends

variable {ret ret' : Pipeline} {nodeIdx : Nat}

theorem Extends.columnsOf (h : ret.Extends ret') (hvalid : ret.Valid)
    (hlt : nodeIdx < ret.nodes.length) : ret'.columnsOf nodeIdx = ret.columnsOf nodeIdx := by
  refine foldNode_extended h.nodes (fun node hnode inputId hdata => ?_) hlt
  simp only [inputColumns, getElem?_extended h.inputs (hvalid.inputs node hnode inputId hdata)]

theorem Extends.inputsOf (h : ret.Extends ret') (hlt : nodeIdx < ret.nodes.length) :
    ret'.inputsOf nodeIdx = ret.inputsOf nodeIdx :=
  foldNode_extended h.nodes (fun _ _ _ _ => rfl) hlt

end Extends

end Pipeline

/-! ## Resolving attributes -/

/-- The column is in the schema, with its type. -/
def OutputColumn.InSchema (col : OutputColumn) : Prop :=
  ∃ attributes, attributesMap col.entity.table = some attributes ∧
    ⟨col.type, col.column⟩ ∈ attributes

/-- The column is the one of the schema that the attribute names. -/
def OutputColumn.Names (col : OutputColumn) (attr : TableEntity × String) : Prop :=
  col.entity = attr.1 ∧ col.column = attr.2 ∧ col.InSchema

theorem tableColumns_inSchema {entity : TableEntity} {attributes : List Attribute}
    (h : attributesMap entity.table = some attributes) :
    ∀ col ∈ tableColumns entity attributes, col.InSchema := by
  intro col hcol
  obtain ⟨attr, hattr, rfl⟩ := List.mem_map.mp hcol
  exact ⟨attributes, h, hattr⟩

theorem findColumn_eq_some {columns : List OutputColumn} {attr : TableEntity × String}
    {col : OutputColumn} {i : Nat} (h : findColumn columns attr = some (col, i)) :
    columns[i]? = some col ∧ col.entity = attr.1 ∧ col.column = attr.2 := by
  have hmem := List.mem_zipIdx_iff_getElem?.mp (List.mem_of_find?_eq_some h)
  have hname := List.find?_some h
  simp only [decide_eq_true_eq] at hname
  exact ⟨hmem, hname⟩

theorem resolveAttr_eq_ok {columns : List OutputColumn} {attr : TableEntity × String}
    {output : OutputColumn × Nat} (h : resolveAttr columns attr = .ok output) :
    columns[output.2]? = some output.1 ∧ output.1.entity = attr.1 ∧ output.1.column = attr.2 := by
  unfold resolveAttr at h
  cases hfind : findColumn columns attr with
  | none => simp [hfind] at h
  | some found =>
    obtain ⟨col, i⟩ := found
    simp only [hfind] at h
    obtain ⟨hget, hentity, hcolumn⟩ := findColumn_eq_some hfind
    rw [← Except.ok.inj h]
    refine ⟨?_, rfl, rfl⟩
    rw [hget, ← hentity, ← hcolumn]

/-- What is resolved among columns of the schema is what was required, at its positions. -/
theorem resolveAttrs_spec {columns : List OutputColumn} (hschema : ∀ col ∈ columns, col.InSchema)
    {required : List (TableEntity × String)} {outputs : List (OutputColumn × Nat)}
    (h : required.mapM (resolveAttr columns) = .ok outputs) :
    project (outputs.map Prod.snd) columns = outputs.map Prod.fst ∧
      List.Forall₂ OutputColumn.Names (outputs.map Prod.fst) required := by
  have hall := mapM_eq_ok_iff.mp h
  clear h
  induction hall with
  | nil => exact ⟨rfl, .nil⟩
  | @cons attr output required outputs hattr _ ih =>
    obtain ⟨hget, hentity, hcolumn⟩ := resolveAttr_eq_ok hattr
    obtain ⟨hproject, hnames⟩ := ih
    constructor
    · rw [List.map_cons, List.map_cons, ← hproject, project, List.filterMap_cons, hget]
      rfl
    · exact .cons ⟨hentity, hcolumn, hschema _ (List.mem_of_getElem? hget)⟩ hnames

theorem Names.inSchema {columns : List OutputColumn} {attrs : List (TableEntity × String)}
    (h : List.Forall₂ OutputColumn.Names columns attrs) : ∀ col ∈ columns, col.InSchema := by
  intro col hcol
  obtain ⟨attr, -, hname⟩ := exists_of_forall₂ h hcol
  exact hname.2.2

/-! ## The nodes of a generated plan -/

/-- The tables that a plan tree scans, from left to right. -/
def PlanTree.entities (scope : Scope) : PlanTree → List TableEntity
  | other plan => plan.entities scope
  | hashJoin _ _ left right => left.entities scope ++ right.entities scope
  | scan aliasName relationName => (scanEntity scope aliasName relationName).toOption.toList
  | otherJoin | unsupported _ => []

theorem extractEntities_eq_ok {scope : Scope} {plan : PlanTree} {entities : List TableEntity}
    (h : extractEntities scope.aliasMap plan = .ok entities) :
    ∀ entity, entity ∈ entities ↔ entity ∈ plan.entities scope := by
  induction plan generalizing entities with
  | other plan ih => exact ih h
  | hashJoin leftHash rightHash left right ihl ihr =>
    rw [extractEntities] at h
    split at h
    · cases h
    · obtain ⟨leftEntities, hl, h₁⟩ := bind_eq_ok.mp h
      obtain ⟨rightEntities, hr, h₂⟩ := bind_eq_ok.mp h₁
      intro entity
      rw [← Except.ok.inj h₂, PlanTree.entities, List.mem_append, ← ihl hl, ← ihr hr]
      exact List.mem_union_iff
  | otherJoin => cases h
  | scan aliasName relationName =>
    cases aliasName with
    | none => cases h
    | some aliasName =>
      simp only [extractEntities] at h
      cases halias : scope.aliasMap aliasName with
      | none => simp [halias] at h
      | some entity =>
        simp only [halias] at h
        rw [← Except.ok.inj h]
        simp [PlanTree.entities, scanEntity, halias, Except.toOption, eq_comm]
  | unsupported nodeType => cases h

namespace Pipeline

/-- A node returns the attributes it was made for, with the types it says. The attributes of a join
are the two columns of an edge between its sides. -/
structure NodeOk (sql : ParsedSQL) (ret : Pipeline) (nodeIdx : Nat) (node : PlanNode)
    (required : List (TableEntity × String)) : Prop where
  names : List.Forall₂ OutputColumn.Names (ret.columnsOf nodeIdx) required
  types : node.outputAttrs.map Prod.snd = (ret.columnsOf nodeIdx).map OutputColumn.type
  children : ∀ left right leftAttr rightAttr, node.data = .join left right leftAttr rightAttr →
    left < nodeIdx ∧ right < nodeIdx
  edge : ∀ left right leftAttr rightAttr, node.data = .join left right leftAttr rightAttr →
    ∃ leftCol rightCol, (ret.columnsOf left)[leftAttr]? = some leftCol ∧
      (ret.columnsOf right)[rightAttr]? = some rightCol ∧
      leftCol.entity ∈ ret.entitiesOf left ∧ rightCol.entity ∈ ret.entitiesOf right ∧
      sql.joinGraph (leftCol.entity, rightCol.entity) = some (leftCol.column, rightCol.column)

section NodeOk

variable {sql : ParsedSQL} {ret : Pipeline} {nodeIdx : Nat} {outputAttrs : List (Nat × DataType)}
  {required : List (TableEntity × String)}
  (hnames : List.Forall₂ OutputColumn.Names (ret.columnsOf nodeIdx) required)
  (htypes : outputAttrs.map Prod.snd = (ret.columnsOf nodeIdx).map OutputColumn.type)
include hnames htypes

theorem NodeOk.scan {inputId : Nat} :
    ret.NodeOk sql nodeIdx ⟨.scan inputId, outputAttrs⟩ required := by
  refine ⟨hnames, htypes, ?_, ?_⟩
  · intro l r a b hdata
    cases hdata
  · intro l r a b hdata
    cases hdata

theorem NodeOk.join {left right leftAttr rightAttr : Nat} {leftCol rightCol : OutputColumn}
    (hl : left < nodeIdx) (hr : right < nodeIdx)
    (hgetl : (ret.columnsOf left)[leftAttr]? = some leftCol)
    (hgetr : (ret.columnsOf right)[rightAttr]? = some rightCol)
    (hleft : leftCol.entity ∈ ret.entitiesOf left) (hright : rightCol.entity ∈ ret.entitiesOf right)
    (hedge : sql.joinGraph (leftCol.entity, rightCol.entity) =
      some (leftCol.column, rightCol.column)) :
    ret.NodeOk sql nodeIdx ⟨.join left right leftAttr rightAttr, outputAttrs⟩ required := by
  refine ⟨hnames, htypes, ?_, ?_⟩
  · intro l r a b hdata
    obtain ⟨rfl, rfl, rfl, rfl⟩ := NodeData.join.inj hdata
    exact ⟨hl, hr⟩
  · intro l r a b hdata
    obtain ⟨rfl, rfl, rfl, rfl⟩ := NodeData.join.inj hdata
    exact ⟨leftCol, rightCol, hgetl, hgetr, hleft, hright, hedge⟩

end NodeOk

/-- All nodes from `start` on are as they should be. -/
def NodesOk (sql : ParsedSQL) (ret : Pipeline) (start : Nat) : Prop :=
  ∀ nodeIdx, start ≤ nodeIdx → nodeIdx < ret.nodes.length → ∃ node required,
    ret.nodes[nodeIdx]? = some node ∧ ret.required[nodeIdx]? = some required ∧
      ret.NodeOk sql nodeIdx node required

theorem Extends.entitiesOf {ret ret' : Pipeline} (h : ret.Extends ret') {nodeIdx : Nat}
    (hlt : nodeIdx < ret.nodes.length)
    (hinputs : ∀ inputId ∈ ret.inputsOf nodeIdx, inputId < ret.inputs.length) :
    ret'.entitiesOf nodeIdx = ret.entitiesOf nodeIdx := by
  unfold Pipeline.entitiesOf
  rw [h.inputsOf hlt]
  exact List.filterMap_congr fun inputId hmem => by rw [getElem?_extended h.inputs (hinputs _ hmem)]

/-- The inputs below any node are there. -/
theorem Valid.inputsOf {ret : Pipeline} (h : ret.Valid) (nodeIdx : Nat) :
    ∀ inputId ∈ ret.inputsOf nodeIdx, inputId < ret.inputs.length := by
  induction nodeIdx using Nat.strong_induction_on with
  | _ nodeIdx ih =>
    cases hnode : ret.nodes[nodeIdx]? with
    | none =>
      unfold Pipeline.inputsOf
      unfold foldNode
      rw [hnode]
      simp
    | some node =>
      cases hdata : node.data with
      | scan inputId =>
        unfold Pipeline.inputsOf
        rw [foldNode_scan hnode hdata, List.forall_mem_singleton]
        exact h.inputs node (List.mem_of_getElem? hnode) inputId hdata
      | join l r a b =>
        by_cases hlt : l < nodeIdx ∧ r < nodeIdx
        · unfold Pipeline.inputsOf
          rw [foldNode_join hnode hdata hlt.1 hlt.2, List.forall_mem_append]
          exact ⟨ih l hlt.1, ih r hlt.2⟩
        · unfold Pipeline.inputsOf
          unfold foldNode
          rw [hnode]
          simp [hdata, hlt]

theorem NodesOk.extend {sql : ParsedSQL} {ret ret' : Pipeline} {start : Nat}
    (h : ret.NodesOk sql start) (hvalid : ret.Valid) (hextends : ret.Extends ret') {nodeIdx : Nat}
    (hstart : start ≤ nodeIdx) (hlt : nodeIdx < ret.nodes.length) : ∃ node required,
    ret'.nodes[nodeIdx]? = some node ∧ ret'.required[nodeIdx]? = some required ∧
      ret'.NodeOk sql nodeIdx node required := by
  obtain ⟨node, required, hnode, hrequired, hok⟩ := h nodeIdx hstart hlt
  have hlt' : nodeIdx < ret.required.length := hvalid.required ▸ hlt
  refine ⟨node, required, ?_, ?_, ?_, ?_, hok.children, fun l r a b hdata => ?_⟩
  · rw [getElem?_extended hextends.nodes hlt, hnode]
  · rw [getElem?_extended hextends.required hlt', hrequired]
  · rw [hextends.columnsOf hvalid hlt]
    exact hok.names
  · rw [hextends.columnsOf hvalid hlt]
    exact hok.types
  · obtain ⟨hl, hr⟩ := hok.children l r a b hdata
    have hl : l < ret.nodes.length := by omega
    have hr : r < ret.nodes.length := by omega
    rw [hextends.columnsOf hvalid hl, hextends.columnsOf hvalid hr,
      hextends.entitiesOf hl (hvalid.inputsOf l), hextends.entitiesOf hr (hvalid.inputsOf r)]
    exact hok.edge l r a b hdata

/-- One more node. -/
structure Adds (ret ret' : Pipeline) (node : PlanNode) (required : List (TableEntity × String)) :
    Prop where
  nodes : ret'.nodes = ret.nodes ++ [node]
  inputs : ret.inputs <+: ret'.inputs
  required : ret'.required = ret.required ++ [required]

section Adds

variable {ret ret' : Pipeline} {node : PlanNode} {attrs : List (TableEntity × String)}
  (h : ret.Adds ret' node attrs)
include h

theorem Adds.extend : ret.Extends ret' :=
  ⟨h.nodes ▸ List.prefix_append _ _, h.inputs, h.required ▸ List.prefix_append _ _⟩

theorem Adds.getElem?_nodes : ret'.nodes[ret.nodes.length]? = some node := by
  rw [h.nodes, List.getElem?_concat_length]

theorem Adds.length_nodes : ret.nodes.length + 1 = ret'.nodes.length := by
  simp [h.nodes]

theorem Adds.getElem?_required (hvalid : ret.Valid) :
    ret'.required[ret.nodes.length]? = some attrs := by
  rw [h.required, ← hvalid.required, List.getElem?_concat_length]

theorem Adds.valid (hvalid : ret.Valid)
    (hnode : ∀ inputId, node.data = .scan inputId → inputId < ret'.inputs.length) :
    ret'.Valid := by
  constructor
  · simp [h.nodes, h.required, hvalid.required]
  · rw [h.nodes, List.forall_mem_append, List.forall_mem_singleton]
    exact ⟨fun node hmem inputId hdata =>
      lt_of_lt_of_le (hvalid.inputs node hmem inputId hdata) h.inputs.length_le, hnode⟩

theorem Adds.nodesOk {sql : ParsedSQL} {start : Nat} (hvalid : ret.Valid)
    (hnodes : ret.NodesOk sql start) (hok : ret'.NodeOk sql ret.nodes.length node attrs) :
    ret'.NodesOk sql start := by
  intro nodeIdx hstart hlt
  rw [← h.length_nodes] at hlt
  rcases Nat.lt_succ_iff_lt_or_eq.mp hlt with hlt | rfl
  · exact hnodes.extend hvalid h.extend hstart hlt
  · exact ⟨node, attrs, h.getElem?_nodes, h.getElem?_required hvalid, hok⟩

end Adds

end Pipeline

/-- The inputs of a plan tree: its tables with their filters. -/
def PlanTree.inputs (sql : ParsedSQL) (plan : PlanTree) : List (TableEntity × Option Filter) :=
  (plan.entities sql.scope).map fun entity => (entity, sql.filters entity)

/-- What a call of `recurse` does to the plan. -/
structure Recursed (sql : ParsedSQL) (plan : PlanTree) (required : List (TableEntity × String))
    (ret : Pipeline) (result : (Nat × List OutputColumn) × Pipeline) : Prop where
  extended : ret.Extends result.2
  valid : result.2.Valid
  root : result.1.1 + 1 = result.2.nodes.length
  grows : ret.nodes.length ≤ result.1.1
  requiredAt : result.2.required[result.1.1]? = some required
  columns : result.1.2 = result.2.columnsOf result.1.1
  names : List.Forall₂ OutputColumn.Names result.1.2 required
  inputs : result.2.inputs = ret.inputs ++ plan.inputs sql
  scanned : result.2.inputsOf result.1.1 =
    List.range' ret.inputs.length (result.2.inputs.length - ret.inputs.length)
  nodes : result.2.NodesOk sql ret.nodes.length

/-! ## Scans and joins -/

section Recurse

variable {sql : ParsedSQL} {required : List (TableEntity × String)} {ret : Pipeline}
  {result : (Nat × List OutputColumn) × Pipeline} {σ : Type} {load : Loader σ} {state state' : σ}

theorem outputAttrs_fst (outputs : List (OutputColumn × Nat)) :
    (outputAttrs outputs).map Prod.fst = outputs.map Prod.snd := by
  simp [outputAttrs]

theorem outputAttrs_snd (outputs : List (OutputColumn × Nat)) :
    (outputAttrs outputs).map Prod.snd = (outputs.map Prod.fst).map OutputColumn.type := by
  simp [outputAttrs]

/-- What a call does at a scan. -/
theorem recurseScan_eq_ok_iff {aliasName relationName : Option String} :
    recurseScan load sql aliasName relationName required ret state = .ok (result, state') ↔
      ∃ entity attributes outputs, scanEntity sql.scope aliasName relationName = .ok entity ∧
        attributesMap entity.table = some attributes ∧
        load ret.inputs.length (entity, sql.filters entity) state = .ok state' ∧
        required.mapM (resolveAttr (tableColumns entity attributes)) = .ok outputs ∧
        result = ((ret.nodes.length, outputs.map Prod.fst),
          ((ret.newInput entity (sql.filters entity)).2.newScanNode required ret.inputs.length
            (outputAttrs outputs)).2) := by
  constructor
  · intro h
    obtain ⟨entity, hentity, h₁⟩ := bind_eq_ok.mp h
    cases hattributes : attributesMap entity.table with
    | none => simp [hattributes] at h₁
    | some attributes =>
      simp only [hattributes] at h₁
      obtain ⟨state₁, hload, h₂⟩ := bind_eq_ok.mp h₁
      obtain ⟨outputs, houtputs, h₃⟩ := bind_eq_ok.mp h₂
      obtain ⟨rfl, rfl⟩ := Prod.mk.inj (Except.ok.inj h₃)
      exact ⟨entity, attributes, outputs, hentity, hattributes, hload, houtputs, rfl⟩
  · rintro ⟨entity, attributes, outputs, hentity, hattributes, hload, houtputs, rfl⟩
    unfold recurseScan
    simp only [hentity, hattributes, hload, houtputs, ok_bind]
    rfl

/-- What a call does at a join. -/
theorem recurse_hashJoin_eq_ok_iff {order : List Bool → List Edge → List Edge}
    {leftHash rightHash : Bool} {left right : PlanTree} :
    recurse load sql order (.hashJoin leftHash rightHash left right) required ret state =
        .ok (result, state') ↔
      leftHash ≠ rightHash ∧ ∃ leftEntities rightEntities edge leftRequired rightRequired
        leftResult ret₁ state₁ rightResult ret₂,
        extractEntities sql.scope.aliasMap left = .ok leftEntities ∧
        extractEntities sql.scope.aliasMap right = .ok rightEntities ∧
        lastEdge (order [] (crossingEdges sql.joinGraph leftEntities rightEntities)) = .ok edge ∧
        splitRequired leftEntities rightEntities required = .ok (leftRequired, rightRequired) ∧
        recurse load sql (fun path => order (false :: path)) left
          (withAttr leftRequired (edge.leftEntity, edge.leftColumn)) ret state =
            .ok ((leftResult, ret₁), state₁) ∧
        recurse load sql (fun path => order (true :: path)) right
          (withAttr rightRequired (edge.rightEntity, edge.rightColumn)) ret₁ state₁ =
            .ok ((rightResult, ret₂), state') ∧
        finishJoin required leftHash edge leftResult rightResult ret₂ = .ok result := by
  rw [recurse]
  constructor
  · intro h
    split at h
    · cases h
    · next hhash =>
      obtain ⟨leftEntities, hentitiesl, h₁⟩ := bind_eq_ok.mp h
      obtain ⟨rightEntities, hentitiesr, h₂⟩ := bind_eq_ok.mp h₁
      obtain ⟨edge, hedge, h₃⟩ := bind_eq_ok.mp h₂
      obtain ⟨⟨leftRequired, rightRequired⟩, hsplit, h₄⟩ := bind_eq_ok.mp h₃
      obtain ⟨⟨⟨leftResult, ret₁⟩, state₁⟩, hl, h₅⟩ := bind_eq_ok.mp h₄
      obtain ⟨⟨⟨rightResult, ret₂⟩, state₂⟩, hr, h₆⟩ := bind_eq_ok.mp h₅
      obtain ⟨joined, hjoined, h₇⟩ := bind_eq_ok.mp h₆
      obtain ⟨rfl, rfl⟩ := Prod.mk.inj (Except.ok.inj h₇)
      exact ⟨hhash, _, _, _, _, _, _, _, _, _, _, hentitiesl, hentitiesr, hedge, hsplit, hl, hr,
        hjoined⟩
  · rintro ⟨hhash, _, _, _, _, _, _, _, _, _, _, hentitiesl, hentitiesr, hedge, hsplit, hl, hr,
      hjoined⟩
    rw [if_neg hhash]
    simp only [hentitiesl, hentitiesr, hedge, hsplit, hl, hr, hjoined, ok_bind]

theorem recurseScan_spec (hvalid : ret.Valid) {aliasName relationName : Option String}
    (h : recurseScan load sql aliasName relationName required ret state = .ok (result, state')) :
    Recursed sql (.scan aliasName relationName) required ret result := by
  obtain ⟨entity, attributes, outputs, hentity, hattributes, -, houtputs, hresult⟩ :=
    recurseScan_eq_ok_iff.mp h
  obtain ⟨hproject, hnames⟩ := resolveAttrs_spec (tableColumns_inSchema hattributes) houtputs
  have hadds : ret.Adds result.2 ⟨.scan ret.inputs.length, outputAttrs outputs⟩ required := by
    rw [hresult]
    exact ⟨rfl, List.prefix_append _ _, rfl⟩
  have hroot : result.1 = (ret.nodes.length, outputs.map Prod.fst) := by
    rw [hresult]
  have hinputs : result.2.inputs = ret.inputs ++ [(entity, sql.filters entity)] := by
    rw [hresult]
    rfl
  have hcolumns : result.2.columnsOf ret.nodes.length = outputs.map Prod.fst := by
    unfold Pipeline.columnsOf
    rw [foldNode_scan hadds.getElem?_nodes rfl, Pipeline.inputColumns, hinputs,
      List.getElem?_concat_length]
    simp only [hattributes]
    unfold PlanNode.attrs
    rw [outputAttrs_fst, hproject]
  have hnodeOk : result.2.NodeOk sql ret.nodes.length
      ⟨.scan ret.inputs.length, outputAttrs outputs⟩ required :=
    .scan (hcolumns ▸ hnames) (hcolumns ▸ outputAttrs_snd outputs)
  refine
    { extended := hadds.extend
      valid := hadds.valid hvalid ?_
      root := ?_
      grows := ?_
      requiredAt := ?_
      columns := ?_
      names := ?_
      inputs := ?_
      scanned := ?_
      nodes := hadds.nodesOk hvalid (fun _ hle hlt => absurd hlt (not_lt.mpr hle)) hnodeOk }
  · intro inputId hscan
    obtain rfl := NodeData.scan.inj hscan
    simp [hinputs]
  · rw [hroot, hadds.length_nodes]
  · rw [hroot]
  · rw [hroot]
    exact hadds.getElem?_required hvalid
  · rw [hroot, hcolumns]
  · rw [hroot]
    exact hnames
  · simp [hinputs, PlanTree.inputs, PlanTree.entities, hentity, Except.toOption]
  · rw [hroot]
    unfold Pipeline.inputsOf
    rw [foldNode_scan hadds.getElem?_nodes rfl, hinputs]
    simp

theorem mem_crossingEdges {graph : JoinGraph} {leftEntities rightEntities : List TableEntity}
    {edge : Edge} (h : edge ∈ crossingEdges graph leftEntities rightEntities) :
    edge.leftEntity ∈ leftEntities ∧ edge.rightEntity ∈ rightEntities ∧
      graph (edge.leftEntity, edge.rightEntity) = some (edge.leftColumn, edge.rightColumn) := by
  obtain ⟨entity, hentity, h⟩ := List.mem_flatMap.mp h
  obtain ⟨adj, hadj, h⟩ := List.mem_filterMap.mp h
  obtain ⟨columns, hcolumns, rfl⟩ := Option.map_eq_some_iff.mp h
  exact ⟨hentity, hadj, hcolumns⟩

theorem lastEdge_eq_ok {edges : List Edge} {edge : Edge} (h : lastEdge edges = .ok edge) :
    edge ∈ edges := by
  unfold lastEdge at h
  split at h
  · next hlast =>
    obtain rfl := Except.ok.inj h
    exact List.mem_of_getLast? hlast
  · cases h

/-- The elements of the second list by their places in both. -/
theorem filterMap_range'_append {α : Type} (l m : List α) :
    (List.range' l.length m.length).filterMap (fun i => (l ++ m)[i]?) = m := by
  induction m generalizing l with
  | nil => rfl
  | cons a m ih =>
    have h := ih (l ++ [a])
    rw [List.length_append, List.append_assoc] at h
    rw [List.length_cons, List.range'_succ, List.filterMap_cons,
      List.getElem?_append_right (Nat.le_refl _), Nat.sub_self]
    simp only [List.getElem?_cons_zero]
    exact congrArg (a :: ·) h

/-- The tables below the root of a plan tree. -/
theorem Recursed.entitiesOf {plan : PlanTree} (h : Recursed sql plan required ret result) :
    result.2.entitiesOf result.1.1 = plan.entities sql.scope := by
  have hentities : result.2.inputs.map Prod.fst =
      ret.inputs.map Prod.fst ++ plan.entities sql.scope := by
    simp [h.inputs, PlanTree.inputs, Function.comp_def]
  have hlen : result.2.inputs.length - ret.inputs.length =
      (plan.entities sql.scope).length := by
    have := congrArg List.length hentities
    simp only [List.length_map, List.length_append] at this
    omega
  have hget : ∀ i, result.2.inputs[i]?.map Prod.fst =
      (ret.inputs.map Prod.fst ++ plan.entities sql.scope)[i]? := fun i => by
    rw [← hentities, List.getElem?_map]
  unfold Pipeline.entitiesOf
  rw [h.scanned, hlen]
  simp only [hget]
  have hall := filterMap_range'_append (ret.inputs.map Prod.fst) (plan.entities sql.scope)
  rwa [List.length_map] at hall

theorem Recursed.lt {plan : PlanTree} (h : Recursed sql plan required ret result) :
    result.1.1 < result.2.nodes.length := by
  have hroot := h.root
  omega

/-- The root of a subtree returns the same columns in a longer plan, of the same tables. -/
theorem Recursed.columnsOf_extended {plan : PlanTree}
    (h : Recursed sql plan required ret result) {ret' : Pipeline}
    (hextends : result.2.Extends ret') : ret'.columnsOf result.1.1 = result.1.2 := by
  rw [hextends.columnsOf h.valid h.lt, h.columns]

theorem Recursed.entitiesOf_extended {plan : PlanTree}
    (h : Recursed sql plan required ret result) {ret' : Pipeline}
    (hextends : result.2.Extends ret') : ret'.entitiesOf result.1.1 = plan.entities sql.scope := by
  rw [hextends.entitiesOf h.lt (h.valid.inputsOf _), h.entitiesOf]

theorem Recursed.inputsOf_extended {plan : PlanTree}
    (h : Recursed sql plan required ret result) {ret' : Pipeline}
    (hextends : result.2.Extends ret') : ret'.inputsOf result.1.1 =
      List.range' ret.inputs.length (result.2.inputs.length - ret.inputs.length) := by
  rw [hextends.inputsOf h.lt, h.scanned]

/-- What the end of a join does. -/
theorem finishJoin_eq_ok {buildLeft : Bool} {edge : Edge} {left right : Nat × List OutputColumn}
    (h : finishJoin required buildLeft edge left right ret = .ok result) :
    ∃ leftCol rightCol leftAttr rightAttr outputs,
      left.2[leftAttr]? = some leftCol ∧ right.2[rightAttr]? = some rightCol ∧
      leftCol.entity = edge.leftEntity ∧ leftCol.column = edge.leftColumn ∧
      rightCol.entity = edge.rightEntity ∧ rightCol.column = edge.rightColumn ∧
      required.mapM (resolveAttr (left.2 ++ right.2)) = .ok outputs ∧
      ret.Adds result.2 ⟨.join left.1 right.1 leftAttr rightAttr, outputAttrs outputs⟩ required ∧
      result.1 = (ret.nodes.length, outputs.map Prod.fst) ∧ result.2.inputs = ret.inputs := by
  unfold finishJoin at h
  split at h
  · next leftCol leftAttr rightCol rightAttr hfindl hfindr =>
    obtain ⟨outputs, houtputs, h₁⟩ := bind_eq_ok.mp h
    obtain ⟨hgetl, hentityl, hcolumnl⟩ := findColumn_eq_some hfindl
    obtain ⟨hgetr, hentityr, hcolumnr⟩ := findColumn_eq_some hfindr
    rw [← Except.ok.inj h₁]
    exact ⟨leftCol, rightCol, leftAttr, rightAttr, outputs, hgetl, hgetr, hentityl, hcolumnl,
      hentityr, hcolumnr, houtputs, ⟨rfl, List.prefix_refl _, rfl⟩, rfl, rfl⟩
  · cases h

theorem range'_append_range' {n m k : Nat} (hnm : n ≤ m) (hmk : m ≤ k) :
    List.range' n (m - n) ++ List.range' m (k - m) = List.range' n (k - n) := by
  obtain ⟨a, rfl⟩ := Nat.exists_eq_add_of_le hnm
  obtain ⟨b, rfl⟩ := Nat.exists_eq_add_of_le hmk
  rw [Nat.add_sub_cancel_left, Nat.add_sub_cancel_left, List.range'_append_1, Nat.add_assoc,
    Nat.add_sub_cancel_left]

theorem finishJoin_spec {left right : PlanTree} {leftHash rightHash : Bool} {edge : Edge}
    {leftRequired rightRequired : List (TableEntity × String)}
    {leftResult rightResult : Nat × List OutputColumn} {ret₁ ret₂ : Pipeline}
    (hl : Recursed sql left leftRequired ret (leftResult, ret₁))
    (hr : Recursed sql right rightRequired ret₁ (rightResult, ret₂))
    (hleft : edge.leftEntity ∈ left.entities sql.scope)
    (hright : edge.rightEntity ∈ right.entities sql.scope)
    (hedge : sql.joinGraph (edge.leftEntity, edge.rightEntity) =
      some (edge.leftColumn, edge.rightColumn))
    (h : finishJoin required leftHash edge leftResult rightResult ret₂ = .ok result) :
    Recursed sql (.hashJoin leftHash rightHash left right) required ret result := by
  obtain ⟨leftCol, rightCol, leftAttr, rightAttr, outputs, hgetl, hgetr, hentityl, hcolumnl,
    hentityr, hcolumnr, houtputs, hadds, hroot, hinputs⟩ := finishJoin_eq_ok h
  have hschema : ∀ col ∈ leftResult.2 ++ rightResult.2, col.InSchema := by
    rw [List.forall_mem_append]
    exact ⟨Names.inSchema hl.names, Names.inSchema hr.names⟩
  obtain ⟨hproject, hnames⟩ := resolveAttrs_spec hschema houtputs
  -- the two children in the final plan
  have hext : ret.Extends ret₂ := hl.extended.trans hr.extended
  have hext₁ : ret₁.Extends result.2 := hr.extended.trans hadds.extend
  have hltl : leftResult.1 < ret₂.nodes.length :=
    lt_of_lt_of_le hl.lt hr.extended.nodes.length_le
  have hltr : rightResult.1 < ret₂.nodes.length := hr.lt
  have hcolumnsl : result.2.columnsOf leftResult.1 = leftResult.2 := hl.columnsOf_extended hext₁
  have hcolumnsr : result.2.columnsOf rightResult.1 = rightResult.2 :=
    hr.columnsOf_extended hadds.extend
  have hcolumns : result.2.columnsOf ret₂.nodes.length = outputs.map Prod.fst := by
    unfold Pipeline.columnsOf at hcolumnsl hcolumnsr ⊢
    rw [foldNode_join hadds.getElem?_nodes rfl hltl hltr, hcolumnsl, hcolumnsr, PlanNode.attrs,
      outputAttrs_fst, hproject]
  have hnodes₂ : ret₂.NodesOk sql ret.nodes.length := by
    intro nodeIdx hstart hlt
    by_cases hnew : nodeIdx < ret₁.nodes.length
    · exact hl.nodes.extend hl.valid hr.extended hstart hnew
    · exact hr.nodes nodeIdx (not_lt.mp hnew) hlt
  have hnodeOk : result.2.NodeOk sql ret₂.nodes.length
      ⟨.join leftResult.1 rightResult.1 leftAttr rightAttr, outputAttrs outputs⟩ required := by
    refine .join (hcolumns ▸ hnames) (hcolumns ▸ outputAttrs_snd outputs) hltl hltr
      (hcolumnsl ▸ hgetl) (hcolumnsr ▸ hgetr) ?_ ?_ ?_
    · rw [hl.entitiesOf_extended hext₁, hentityl]
      exact hleft
    · rw [hr.entitiesOf_extended hadds.extend, hentityr]
      exact hright
    · rw [hentityl, hentityr, hcolumnl, hcolumnr]
      exact hedge
  refine
    { extended := hext.trans hadds.extend
      valid := hadds.valid hr.valid ?_
      root := ?_
      grows := ?_
      requiredAt := ?_
      columns := ?_
      names := ?_
      inputs := ?_
      scanned := ?_
      nodes := hadds.nodesOk hr.valid hnodes₂ hnodeOk }
  · intro inputId hscan
    cases hscan
  · rw [hroot, hadds.length_nodes]
  · rw [hroot]
    exact hext.nodes.length_le
  · rw [hroot]
    exact hadds.getElem?_required hr.valid
  · rw [hroot, hcolumns]
  · rw [hroot]
    exact hnames
  · have hl := hl.inputs
    have hr := hr.inputs
    simp only at hl hr
    rw [hinputs, hr, hl, List.append_assoc]
    simp [PlanTree.inputs, PlanTree.entities]
  · -- the inputs of the right side follow those of the left
    have hscannedl := hl.inputsOf_extended hext₁
    have hscannedr := hr.inputsOf_extended hadds.extend
    simp only at hscannedl hscannedr
    rw [hroot, hinputs,
      ← range'_append_range' hl.extended.inputs.length_le hr.extended.inputs.length_le]
    unfold Pipeline.inputsOf at hscannedl hscannedr ⊢
    rw [foldNode_join hadds.getElem?_nodes rfl hltl hltr, hscannedl, hscannedr]

/-- A call of `recurse`, in whatever order the edges between two sides come. -/
theorem recurse_spec {order : List Bool → List Edge → List Edge}
    (horder : ∀ path edges, (order path edges).Perm edges) (hvalid : ret.Valid) {plan : PlanTree}
    (h : recurse load sql order plan required ret state = .ok (result, state')) :
    Recursed sql plan required ret result := by
  induction plan generalizing order required ret result state state' with
  | other plan ih =>
    exact { ih (fun path => horder _) hvalid h with }
  | hashJoin leftHash rightHash left right ihl ihr =>
    obtain ⟨-, leftEntities, rightEntities, edge, _, _, _, _, _, _, _, hentitiesl, hentitiesr,
      hedge, -, hl, hr, hjoined⟩ := recurse_hashJoin_eq_ok_iff.mp h
    have hl := ihl (fun path => horder _) hvalid hl
    have hr := ihr (fun path => horder _) hl.valid hr
    have hmem := (horder [] _).mem_iff.mp (lastEdge_eq_ok hedge)
    obtain ⟨hleft, hright, hgraph⟩ := mem_crossingEdges hmem
    exact finishJoin_spec hl hr ((extractEntities_eq_ok hentitiesl _).mp hleft)
      ((extractEntities_eq_ok hentitiesr _).mp hright) hgraph hjoined
  | otherJoin => cases h
  | scan aliasName relationName => exact recurseScan_spec hvalid h
  | unsupported nodeType => cases h

/-- The plan and its root. -/
theorem loadJoinPipeline_spec {order : IterationOrder Edge} {plan : PlanTree} {root : Nat}
    (h : loadJoinPipeline load sql order plan state = .ok ((ret, root), state')) :
    ∃ columns, Recursed sql plan sql.outputAttrs {} ((root, columns), ret) := by
  obtain ⟨⟨⟨⟨root', columns⟩, ret'⟩, state₁⟩, hrecurse, h₁⟩ := bind_eq_ok.mp h
  obtain ⟨hret, -⟩ := Prod.mk.inj (Except.ok.inj h₁)
  obtain ⟨rfl, rfl⟩ := Prod.mk.inj hret
  exact ⟨columns, recurse_spec order.perm Pipeline.Valid.empty hrecurse⟩

end Recurse

/-! ## The tables that a call loads -/

section Load

variable {σ τ : Type}

/-- The tables of some inputs, loaded one after another. The first has the number `start`. -/
def Loader.loadAll (load : Loader σ) (start : Nat) (inputs : List (TableEntity × Option Filter))
    (state : σ) : Except Fault σ :=
  (inputs.zipIdx start).foldlM (fun state input => load input.2 input.1 state) state

/-- No table is loaded: what is left is the plan. -/
def planOnly : Loader Unit := fun _ _ _ => .ok ()

theorem Loader.loadAll_cons (load : Loader σ) (start : Nat) (input : TableEntity × Option Filter)
    (inputs : List (TableEntity × Option Filter)) (state : σ) :
    load.loadAll start (input :: inputs) state =
      load start input state >>= load.loadAll (start + 1) inputs := by
  unfold loadAll
  rw [List.zipIdx_cons, List.foldlM_cons]

theorem Loader.loadAll_append (load : Loader σ) (start : Nat)
    (inputs inputs' : List (TableEntity × Option Filter)) (state : σ) :
    load.loadAll start (inputs ++ inputs') state =
      load.loadAll start inputs state >>= load.loadAll (start + inputs.length) inputs' := by
  unfold loadAll
  rw [List.zipIdx_append, List.foldlM_append]

theorem Loader.loadAll_singleton (load : Loader σ) (start : Nat)
    (input : TableEntity × Option Filter) (state : σ) :
    load.loadAll start [input] state = load start input state := by
  unfold loadAll
  rw [List.zipIdx_singleton, List.foldlM_cons]
  exact bind_pure _

variable {sql : ParsedSQL} {required : List (TableEntity × String)} {ret : Pipeline}
  {result : (Nat × List OutputColumn) × Pipeline} {load : Loader σ} {state state' : σ}

/-- A call loads the tables of the inputs that it adds, in their order, and where these can be
loaded in another way the same plan is made. -/
theorem recurse_reload (load' : Loader τ) {order : List Bool → List Edge → List Edge}
    {plan : PlanTree}
    (h : recurse load sql order plan required ret state = .ok (result, state')) :
    ∃ inputs, result.2.inputs = ret.inputs ++ inputs ∧
      load.loadAll ret.inputs.length inputs state = .ok state' ∧
      ∀ t t', load'.loadAll ret.inputs.length inputs t = .ok t' →
        recurse load' sql order plan required ret t = .ok (result, t') := by
  induction plan generalizing order required ret result state state' with
  | other plan ih => exact ih h
  | hashJoin leftHash rightHash left right ihl ihr =>
    obtain ⟨hhash, leftEntities, rightEntities, edge, leftRequired, rightRequired, leftResult, ret₁,
      state₁, rightResult, ret₂, hentitiesl, hentitiesr, hedge, hsplit, hl, hr, hjoined⟩ :=
      recurse_hashJoin_eq_ok_iff.mp h
    obtain ⟨inputsl, hinputsl, hloadl, hreloadl⟩ := ihl hl
    obtain ⟨inputsr, hinputsr, hloadr, hreloadr⟩ := ihr hr
    obtain ⟨_, _, _, _, _, -, -, -, -, -, -, -, -, -, hinputs⟩ := finishJoin_eq_ok hjoined
    have hlength : ret₁.inputs.length = ret.inputs.length + inputsl.length := by
      rw [hinputsl, List.length_append]
    rw [hlength] at hloadr hreloadr
    refine ⟨inputsl ++ inputsr, ?_, ?_, fun t t' ht => ?_⟩
    · rw [hinputs, hinputsr, hinputsl, List.append_assoc]
    · rw [Loader.loadAll_append, hloadl, ok_bind, hloadr]
    · rw [Loader.loadAll_append] at ht
      obtain ⟨t₁, ht₁, ht₂⟩ := bind_eq_ok.mp ht
      exact recurse_hashJoin_eq_ok_iff.mpr ⟨hhash, _, _, _, _, _, _, _, t₁, _, _, hentitiesl,
        hentitiesr, hedge, hsplit, hreloadl t t₁ ht₁, hreloadr t₁ t' ht₂, hjoined⟩
  | otherJoin => cases h
  | scan aliasName relationName =>
    obtain ⟨entity, attributes, outputs, hentity, hattributes, hload, houtputs, rfl⟩ :=
      recurseScan_eq_ok_iff.mp h
    refine ⟨[(entity, sql.filters entity)], rfl, ?_, fun t t' ht => ?_⟩
    · rw [Loader.loadAll_singleton, hload]
    · rw [Loader.loadAll_singleton] at ht
      exact recurseScan_eq_ok_iff.mpr
        ⟨entity, attributes, outputs, hentity, hattributes, ht, houtputs, rfl⟩
  | unsupported nodeType => cases h

/-- So does the generation of a plan as a whole. -/
theorem loadJoinPipeline_reload (load' : Loader τ) {order : IterationOrder Edge} {plan : PlanTree}
    {root : Nat}
    (h : loadJoinPipeline load sql order plan state = .ok ((ret, root), state')) :
    load.loadAll 0 ret.inputs state = .ok state' ∧
      ∀ t t', load'.loadAll 0 ret.inputs t = .ok t' →
        loadJoinPipeline load' sql order plan t = .ok ((ret, root), t') := by
  obtain ⟨⟨⟨⟨root', columns⟩, ret'⟩, state₁⟩, hrecurse, h₁⟩ := bind_eq_ok.mp h
  obtain ⟨hret, rfl⟩ := Prod.mk.inj (Except.ok.inj h₁)
  obtain ⟨rfl, rfl⟩ := Prod.mk.inj hret
  obtain ⟨inputs, hinputs, hload, hreload⟩ := recurse_reload load' hrecurse
  obtain rfl : ret'.inputs = inputs := hinputs
  refine ⟨hload, fun t t' ht => ?_⟩
  unfold loadJoinPipeline
  rw [hreload t t' ht]
  rfl

end Load

/-- Every node of a generated plan returns exactly the attributes it was made for, and the root
those asked for. -/
theorem recurse_positional {σ : Type} (load : Loader σ) (sql : ParsedSQL)
    (order : IterationOrder Edge) (plan : PlanTree) (required : List (TableEntity × String))
    {nodeIdx : Nat} {columns : List OutputColumn} {ret : Pipeline} {state state' : σ}
    (h : recurse load sql order.order plan required {} state =
      .ok (((nodeIdx, columns), ret), state')) :
    nodeIdx + 1 = ret.nodes.length ∧ ret.required[nodeIdx]? = some required ∧
      columns = ret.columnsOf nodeIdx ∧
      ∀ i < ret.nodes.length, ∃ node attrs, ret.nodes[i]? = some node ∧
        ret.required[i]? = some attrs ∧ ret.NodeOk sql i node attrs := by
  have hspec := recurse_spec order.perm Pipeline.Valid.empty h
  exact ⟨hspec.root, hspec.requiredAt, hspec.columns,
    fun i hi => hspec.nodes i (Nat.zero_le i) hi⟩

/-! ## A query -/

/-- Maps and sets that are gone through in the order of insertion. -/
def inOrder (α : Type) : IterationOrder α := ⟨fun _ l => l, fun _ _ => .refl _⟩

def parseInOrder : ParseEnv := ⟨fun _ => 0, fun _ => 0, inOrder _⟩

/-- `SELECT k.keyword FROM keyword AS k, link_type AS l WHERE ...` -/
def keywordLink (whereClause : Expr) : Query where
  selectList := [.columnRef ⟨some "k", "keyword"⟩]
  fromTable := [("keyword", some "k"), ("link_type", some "l")]
  whereClause := whereClause

/-- `k.id = l.id` -/
def keywordId : Expr := .compare .equals (.columnRef ⟨some "k", "id"⟩) (.columnRef ⟨some "l", "id"⟩)

/-- A hash join of the two tables under an aggregate. -/
def linkKeywordPlan : PlanTree :=
  .other (.hashJoin true false (.scan (some "l") none) (.scan (some "k") none))

/-- The plan of that query has three nodes, the join last. -/
theorem recurse_positional_keywordLink :
    ∃ sql columns ret loaded,
      parseSQL (fun _ => none) parseInOrder (keywordLink keywordId) = .ok sql ∧
      recurse (fun _ input loaded => .ok (loaded ++ [input.1])) sql (inOrder Edge).order
        linkKeywordPlan sql.outputAttrs {} [] = .ok (((2, columns), ret), loaded) ∧
      columns = ret.columnsOf 2 ∧
      ∀ i < 3, ∃ node attrs, ret.nodes[i]? = some node ∧ ret.required[i]? = some attrs ∧
        ret.NodeOk sql i node attrs := by
  have hall : ∀ sql columns ret loaded,
      recurse (fun _ input loaded => .ok (loaded ++ [input.1])) sql (inOrder Edge).order
        linkKeywordPlan sql.outputAttrs {} [] = .ok (((2, columns), ret), loaded) →
      columns = ret.columnsOf 2 ∧ ∀ i < 3, ∃ node attrs, ret.nodes[i]? = some node ∧
        ret.required[i]? = some attrs ∧ ret.NodeOk sql i node attrs := by
    intro sql columns ret loaded h
    obtain ⟨hlength, -, hcolumns, hnodes⟩ :=
      recurse_positional _ sql (inOrder Edge) linkKeywordPlan sql.outputAttrs h
    exact ⟨hcolumns, fun i hi => hnodes i (by omega)⟩
  exact ⟨_, _, _, _, rfl, rfl, hall _ _ _ _ rfl⟩

end HashJoin
