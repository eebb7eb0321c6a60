import HashJoin.EnforcedJoins
import HashJoin.LoadCSV

/-!
# The answer of a query

The answer of a query takes a row of each table of its `FROM` list in all ways, keeps those of which
the `WHERE` clause holds, and selects columns of them. A generated plan over the filtered tables
has the rows of the answer.
-/

namespace HashJoin

open Relational UnionFind

/-! ## Answers -/

/-- The columns of an entry of the select list. The name of a function does not matter. -/
def SelectItem.columns : SelectItem → List ColumnRef
  | .columnRef ref => [ref]
  | .functionRef exprList => exprList.filterMap fun child => (assertColumn child).toOption
  | .other _ => []

def Query.selected (query : Query) : List ColumnRef := query.selectList.flatMap SelectItem.columns

/-- The rows that a query selects from the rows of the tables. -/
def Query.answer (query : Query) (scope : Scope) (columnToTables : String → Option (List String))
    (likeMatch : List UInt8 → List UInt8 → Bool) (base : String → List (List Data)) :
    List (List Data) :=
  ((assignments (fun entity => base entity.table) (fun _ => []) scope.entities).filter
      (query.whereClause.holds scope columnToTables likeMatch)).map
    fun rows => query.selected.map (ColumnRef.value scope columnToTables rows)

/-! ## All rows of a plan -/

/-- The columns of an edge are equal and not NULL. -/
def edgeHolds (rows : TableEntity → List Data) (edge : OutputColumn × OutputColumn) : Bool :=
  (edge.1.valueIn rows).equates (edge.2.valueIn rows)

namespace Pipeline

/-- The keys of a join are equal when the columns of its edge are. -/
def ComparesValues {K : Type} (ret : Pipeline) (sql : ParsedSQL) (key : Data → Option K)
    (tables : Nat → List (List Data)) : Prop :=
  ∀ (nodeIdx : Nat) (node : PlanNode) (left right leftAttr rightAttr : Nat)
    (leftCol rightCol : OutputColumn),
    IsJoin sql ret nodeIdx node left right leftAttr rightAttr leftCol rightCol →
      ∀ l ∈ choices tables (ret.inputsOf left), ∀ r ∈ choices tables (ret.inputsOf right),
        (key (leftCol.valueIn (ret.rowsOf l))).isSome ∧
            key (leftCol.valueIn (ret.rowsOf l)) = key (rightCol.valueIn (ret.rowsOf r)) ↔
          (leftCol.valueIn (ret.rowsOf l)).equates (rightCol.valueIn (ret.rowsOf r)) = true

section Rows

variable {K : Type} [DecidableEq K] {key : Data → Option K} {sql : ParsedSQL} {ret : Pipeline}
  {tables : Nat → List (List Data)}

/-- The rows of a node are all choices of rows of its tables on which its edges hold. -/
theorem NodesOk.evalRows_eq (hok : ret.NodesOk sql 0) (hvalid : ret.Valid)
    (hfit : ret.TablesFit HasWidth tables) (hkey : ret.ComparesValues sql key tables) :
    ∀ nodeIdx < ret.nodes.length, (ret.entitiesOf nodeIdx).Nodup →
      ret.evalRows key tables nodeIdx =
        ((choices tables (ret.inputsOf nodeIdx)).filter fun c =>
          (ret.edgesOf nodeIdx).all (edgeHolds (ret.rowsOf c))).map fun c =>
            ((ret.columnsOf nodeIdx).map (OutputColumn.valueIn (ret.rowsOf c)), c) := by
  refine hok.induct hvalid ?_ ?_
  · intro nodeIdx node inputId h _
    have hvalues : ∀ row ∈ tables inputId,
        (ret.columnsOf nodeIdx).map (OutputColumn.valueIn (ret.rowsOf [(inputId, row)])) =
          project node.attrs row := fun row hrow => by
      rw [h.columnsOf, ← project_map, hfit.map_valueIn h.input hrow]
    have hchoices : choices tables [inputId] =
        (tables inputId).map fun row => [(inputId, row)] := by
      simp [choices, List.map_eq_flatMap]
    have hrows : ret.evalRows key tables nodeIdx =
        (tables inputId).map fun row => (project node.attrs row, [(inputId, row)]) :=
      foldNode_scan h.at_nodes h.data
    rw [hrows, h.inputsOf, h.edgesOf, hchoices]
    simp only [List.all_nil, List.filter_true, List.map_map]
    exact List.map_congr_left fun row hrow => by rw [Function.comp_apply, hvalues row hrow]
  · intro nodeIdx node left right leftAttr rightAttr leftCol rightCol h ihl ihr hnodup
    rw [h.entitiesOf, List.nodup_append'] at hnodup
    obtain ⟨hnodupl, hnodupr, hdisj⟩ := hnodup
    have hrows : ret.evalRows key tables nodeIdx =
        (ret.evalRows key tables left).flatMap fun l => ((ret.evalRows key tables right).filter
          fun r => Matches key leftAttr rightAttr l.1 r.1).map fun r =>
            (project node.attrs (l.1 ++ r.1), l.2 ++ r.2) :=
      foldNode_join h.at_nodes h.data h.left_lt h.right_lt
    have hmatches : ∀ l ∈ choices tables (ret.inputsOf left),
        ∀ r ∈ choices tables (ret.inputsOf right), Matches key leftAttr rightAttr
          ((ret.columnsOf left).map (OutputColumn.valueIn (ret.rowsOf l)))
          ((ret.columnsOf right).map (OutputColumn.valueIn (ret.rowsOf r))) ↔
        (leftCol.valueIn (ret.rowsOf l)).equates (rightCol.valueIn (ret.rowsOf r)) = true := by
      intro l hl r hr
      unfold Matches
      rw [List.getElem?_map, List.getElem?_map, h.left_column, h.right_column]
      exact hkey nodeIdx node left right leftAttr rightAttr leftCol rightCol h l hl r hr
    have hedges : ∀ l ∈ choices tables (ret.inputsOf left),
        ∀ r ∈ choices tables (ret.inputsOf right),
          (ret.edgesOf nodeIdx).all (edgeHolds (ret.rowsOf (l ++ r))) =
            ((ret.edgesOf left).all (edgeHolds (ret.rowsOf l)) &&
              ((ret.edgesOf right).all (edgeHolds (ret.rowsOf r)) &&
                (leftCol.valueIn (ret.rowsOf l)).equates (rightCol.valueIn (ret.rowsOf r)))) := by
      intro l hl r _
      rw [Bool.eq_iff_iff, Bool.and_eq_true, Bool.and_eq_true, List.all_eq_true, List.all_eq_true,
        List.all_eq_true, ← and_assoc]
      exact h.edges_hold_iff hok hvalid hdisj (mem_choices hl).1
    rw [hrows, ihl hnodupl, ihr hnodupr, h.inputsOf, choices_append,
      filter_flatMap_map (p := fun c => (ret.edgesOf nodeIdx).all (edgeHolds (ret.rowsOf c))) _ _ _
        hedges, List.map_flatMap, List.flatMap_map]
    refine List.flatMap_congr fun l hl => ?_
    have hl := List.mem_of_mem_filter hl
    rw [List.filter_map, List.map_map, List.map_map]
    have hfilter : ((choices tables (ret.inputsOf right)).filter fun c =>
        (ret.edgesOf right).all (edgeHolds (ret.rowsOf c))).filter
          ((fun r : List Data × List (Nat × List Data) => decide (Matches key leftAttr rightAttr
            ((ret.columnsOf left).map (OutputColumn.valueIn (ret.rowsOf l))) r.1)) ∘
            fun c => ((ret.columnsOf right).map (OutputColumn.valueIn (ret.rowsOf c)), c)) =
        ((choices tables (ret.inputsOf right)).filter fun c =>
          (ret.edgesOf right).all (edgeHolds (ret.rowsOf c))).filter fun r =>
            (leftCol.valueIn (ret.rowsOf l)).equates (rightCol.valueIn (ret.rowsOf r)) := by
      refine List.filter_congr fun r hr => ?_
      rw [Function.comp_apply, Bool.eq_iff_iff, decide_eq_true_eq]
      exact hmatches l hl r (List.mem_of_mem_filter hr)
    rw [hfilter]
    refine List.map_congr_left fun r _ => ?_
    rw [Function.comp_apply, Function.comp_apply,
      h.map_valueIn hok hvalid hdisj (mem_choices hl).1]

end Rows

section Entities

variable {ret : Pipeline} {base : TableEntity → List (List Data)}
  {tables : Nat → List (List Data)}

theorem rowsOf_cons {inputId : Nat} {entity : TableEntity}
    (h : ret.inputs[inputId]?.map Prod.fst = some entity) (row : List Data)
    (c : List (Nat × List Data)) :
    ret.rowsOf ((inputId, row) :: c) = Function.update (ret.rowsOf c) entity row := by
  funext entity'
  by_cases heq : entity = entity'
  · subst heq
    rw [Function.update_self]
    simp [rowsOf, h]
  · rw [Function.update_of_ne (Ne.symm heq)]
    simp [rowsOf, h, heq]

/-- The choices of rows of the inputs, as functions of the entities. -/
theorem map_rowsOf_choices {inputIds : List Nat} {entities : List TableEntity}
    (h : List.Forall₂ (fun inputId entity => ret.inputs[inputId]?.map Prod.fst = some entity ∧
      tables inputId = base entity) inputIds entities) :
    (choices tables inputIds).map ret.rowsOf = assignments base (fun _ => []) entities := by
  induction h with
  | nil => rfl
  | @cons inputId entity inputIds entities hid _ ih =>
    rw [choices, assignments, hid.2, List.map_flatMap, ← ih]
    refine List.flatMap_congr fun row _ => ?_
    rw [List.map_map, List.map_map]
    exact List.map_congr_left fun c _ => rowsOf_cons hid.1 row c

end Entities

end Pipeline

/-! ## The parts of a parsed query -/

theorem parseSQL_eq_ok {columnToTables : String → Option (List String)} {env : ParseEnv}
    {query : Query} {sql : ParsedSQL} (h : parseSQL columnToTables env query = .ok sql) :
    (query.selectList.foldlM (selectItem sql.scope columnToTables env.selectJunk) [] =
      .ok sql.outputAttrs) ∧
    ∃ state, parseExpr sql.scope columnToTables env.whereJunk query.whereClause {} = .ok state ∧
      sql.filters = state.filters ∧ sql.united = state.united := by
  have hmap : ∀ {α : Type} {x : Except String α} {a : α},
      x.mapError Fault.runtimeError = .ok a → x = .ok a := fun {α x a} hx => by
    cases x with
    | error e => cases hx
    | ok b => exact congrArg Except.ok (Except.ok.inj hx)
  obtain ⟨scope, hscope, h₁⟩ := bind_eq_ok.mp h
  obtain ⟨attrs, hattrs, h₂⟩ := bind_eq_ok.mp h₁
  obtain ⟨state, hstate, h₃⟩ := bind_eq_ok.mp h₂
  obtain ⟨union, -, h₄⟩ := bind_eq_ok.mp h₃
  obtain ⟨⟨classes, union'⟩, -, h₅⟩ := bind_eq_ok.mp h₄
  obtain ⟨graph, -, h₆⟩ := bind_eq_ok.mp h₅
  rw [← Except.ok.inj h₆]
  exact ⟨hmap hattrs, state, hmap hstate, rfl, rfl⟩

/-- The column and the entity that a reference in the select list stands for. -/
def SelectsAttr (scope : Scope) (columnToTables : String → Option (List String)) (ref : ColumnRef)
    (attr : TableEntity × String) : Prop :=
  ∃ junk, extractColumnAndTable scope columnToTables junk ref = .ok (attr.2, attr.1)

section Select

variable {scope : Scope} {columnToTables : String → Option (List String)} {junk : Nat → Int}
  {attrs attrs' : List (TableEntity × String)}

theorem selectColumn_eq_ok {ref : ColumnRef}
    (h : selectColumn scope columnToTables junk attrs ref = .ok attrs') :
    ∃ attr, attrs' = attrs ++ [attr] ∧ SelectsAttr scope columnToTables ref attr := by
  obtain ⟨⟨column, entity⟩, hextract, h₁⟩ := bind_eq_ok.mp h
  exact ⟨(entity, column), (Except.ok.inj h₁).symm, _, hextract⟩

theorem selectItem_eq_ok {item : SelectItem}
    (h : selectItem scope columnToTables junk attrs item = .ok attrs') :
    ∃ more, attrs' = attrs ++ more ∧
      List.Forall₂ (SelectsAttr scope columnToTables) item.columns more := by
  cases item with
  | columnRef ref =>
    obtain ⟨attr, rfl, hattr⟩ := selectColumn_eq_ok h
    exact ⟨[attr], rfl, .cons hattr .nil⟩
  | functionRef exprList =>
    unfold SelectItem.columns
    rw [selectItem] at h
    induction exprList generalizing attrs with
    | nil => exact ⟨[], by rw [List.append_nil, ← Except.ok.inj h], .nil⟩
    | cons child exprList ih =>
      obtain ⟨attrs₁, hchild, hrest⟩ := bind_eq_ok.mp h
      cases child with
      | columnRef ref =>
        obtain ⟨attr, rfl, hattr⟩ := selectColumn_eq_ok hchild
        obtain ⟨more, rfl, hmore⟩ := ih hrest
        exact ⟨attr :: more, by simp, .cons hattr hmore⟩
      | _ => cases hchild
  | other exprType => cases h

theorem selectList_eq_ok {selectList : List SelectItem}
    (h : selectList.foldlM (selectItem scope columnToTables junk) attrs = .ok attrs') :
    ∃ more, attrs' = attrs ++ more ∧ List.Forall₂ (SelectsAttr scope columnToTables)
      (selectList.flatMap SelectItem.columns) more := by
  induction selectList generalizing attrs with
  | nil => exact ⟨[], by rw [List.append_nil, ← Except.ok.inj h], .nil⟩
  | cons item selectList ih =>
    obtain ⟨attrs₁, hitem, hrest⟩ := bind_eq_ok.mp h
    obtain ⟨more, rfl, hmore⟩ := selectItem_eq_ok hitem
    obtain ⟨more', rfl, hmore'⟩ := ih hrest
    exact ⟨more ++ more', by rw [List.append_assoc], List.rel_append hmore hmore'⟩

end Select

/-! ## Plans of queries -/

/-- A plan that scans each table of a query once, with its filter, and returns its columns. -/
structure QueryPlan (columnToTables : String → Option (List String)) (query : Query)
    (sql : ParsedSQL) (ret : Pipeline) (root : Nat) : Prop extends PlanOf query sql ret root where
  selected : List.Forall₂ (SelectsAttr sql.scope columnToTables) query.selected sql.outputAttrs
  parsed : ∃ junk state, parseExpr sql.scope columnToTables junk query.whereClause {} = .ok state ∧
    sql.filters = state.filters ∧ sql.united = state.united
  names : List.Forall₂ OutputColumn.Names (ret.columnsOf root) sql.outputAttrs
  filters : ∀ input ∈ ret.inputs, input.2 = sql.filters input.1
  scanned : ret.inputsOf root = List.range ret.inputs.length

theorem loadJoinPipeline_queryPlan {columnToTables : String → Option (List String)}
    {env : ParseEnv} {query : Query} {sql : ParsedSQL} {order : IterationOrder Edge}
    {plan : PlanTree} {ret : Pipeline} {root : Nat} {σ : Type} {load : Loader σ}
    {state state' : σ} (hparse : parseSQL columnToTables env query = .ok sql)
    (hload : loadJoinPipeline load sql order plan state = .ok ((ret, root), state'))
    (honce : (plan.entities sql.scope).Perm sql.scope.entities) :
    QueryPlan columnToTables query sql ret root := by
  have hplanOf := loadJoinPipeline_planOf hparse hload honce
  obtain ⟨hselect, state, hstate, hfilters, hunited⟩ := parseSQL_eq_ok hparse
  obtain ⟨attrs, hattrs, hselected⟩ := selectList_eq_ok hselect
  rw [List.nil_append] at hattrs
  obtain ⟨columns, hspec⟩ := loadJoinPipeline_spec hload
  have hinputs : ret.inputs = plan.inputs sql := hspec.inputs
  exact
    { hplanOf with
      selected := hattrs ▸ hselected
      parsed := ⟨_, state, hstate, hfilters, hunited⟩
      names := hspec.columns ▸ hspec.names
      filters := fun input hinput => by
        obtain ⟨entity, -, rfl⟩ := List.mem_map.mp (hinputs ▸ hinput)
        rfl
      scanned := hspec.scanned.trans List.range_eq_range'.symm }

/-- What a query must be like for a plan to give its answer. No `IN` is empty, no equality of
columns is under `NOT` or of a column with itself, the equalities make as many classes as the joins
of a plan do, tables are joined on `INT32` columns, and the filters compare columns with literals of
their types. -/
structure ParsedSQL.Answerable (query : Query) (sql : ParsedSQL) : Prop where
  wellFormed : query.whereClause.WellFormed
  plain : ∀ c ∈ query.whereClause.conjuncts, c.negatesEquality = false
  selects : query.selected ≠ []
  classes : sql.classCount + query.fromTable.length = sql.scope.columnVec.length + 1
  different : ∀ pair ∈ sql.united, pair.1 ≠ pair.2
  int32 : ∀ left right columns, sql.joinGraph (left, right) = some columns →
    sql.scope.columnType (sql.scope.number left columns.1) = some .int32 ∧
      sql.scope.columnType (sql.scope.number right columns.2) = some .int32
  filters : ∀ entity ∈ sql.scope.entities, ∀ filter, sql.filters entity = some filter →
    ∃ stmt attributes, filter = .statement stmt ∧ attributesMap entity.table = some attributes ∧
      stmt.WellTyped (attributes.map Attribute.type)

/-- The rows that a filter of a query keeps. -/
def Filter.passes (likeMatch : List UInt8 → List UInt8 → Bool) :
    Option Filter → List Data → Bool
  | none, record => HashJoin.passes likeMatch none record
  | some (.statement stmt), record => HashJoin.passes likeMatch (some stmt) record
  | some .nullChild, _ => false

theorem Filter.passes_iff {likeMatch : List UInt8 → List UInt8 → Bool} {filter : Option Filter}
    {record : List Data} : Filter.passes likeMatch filter record = true ↔
      ∀ stmt, filter = some stmt → stmt.Satisfied likeMatch record := by
  cases filter with
  | none => simp [Filter.passes, HashJoin.passes]
  | some filter =>
    cases filter with
    | statement stmt => simp [Filter.passes, HashJoin.passes, Filter.Satisfied]
    | nullChild => simp [Filter.passes, Filter.Satisfied]

/-! ## Edges and equalities -/

/-- The edges of a plan that scans each table once are between different tables. -/
theorem Pipeline.NodesOk.edges_ne {sql : ParsedSQL} {ret : Pipeline} (hok : ret.NodesOk sql 0)
    (hvalid : ret.Valid) : ∀ nodeIdx < ret.nodes.length, (ret.entitiesOf nodeIdx).Nodup →
      ∀ edge ∈ ret.edgesOf nodeIdx, edge.1.entity ≠ edge.2.entity := by
  refine hok.induct hvalid ?_ ?_
  · intro nodeIdx node inputId h _ edge hedge
    rw [h.edgesOf] at hedge
    cases hedge
  · intro nodeIdx node left right leftAttr rightAttr leftCol rightCol h ihl ihr hnodup
    rw [h.entitiesOf, List.nodup_append'] at hnodup
    obtain ⟨hnodupl, hnodupr, hdisj⟩ := hnodup
    rw [h.edgesOf, List.forall_mem_append, List.forall_mem_append, List.forall_mem_singleton]
    exact ⟨⟨ihl hnodupl, ihr hnodupr⟩, fun heq => hdisj h.left_mem (heq ▸ h.right_mem)⟩

section Edges

variable {query : Query} {sql : ParsedSQL} {ret : Pipeline} {root : Nat}
  (h : PlanOf query sql ret root)
include h

theorem PlanOf.edgeHolds_eq (rows : TableEntity → List Data) {edge : OutputColumn × OutputColumn}
    (hedge : edge ∈ ret.edgesOf root) : edgeHolds rows edge =
      (sql.scope.valueOf rows (sql.scope.number edge.1.entity edge.1.column)).equates
        (sql.scope.valueOf rows (sql.scope.number edge.2.entity edge.2.column)) := by
  obtain ⟨hl, hr, -⟩ := h.edge hedge
  simp only [edgeHolds, OutputColumn.valueIn, Scope.valueOf, hl, hr]

theorem PlanOf.number_ne {edge : OutputColumn × OutputColumn} (hedge : edge ∈ ret.edgesOf root) :
    sql.scope.number edge.1.entity edge.1.column ≠
      sql.scope.number edge.2.entity edge.2.column := by
  obtain ⟨hl, hr, -⟩ := h.edge hedge
  intro heq
  rw [heq, hr] at hl
  have hentity := congrArg Prod.fst (Option.some.inj hl)
  exact h.nodes.edges_ne h.valid root h.root_lt h.nodup edge hedge hentity.symm

/-- The edges of the plan hold exactly if the equalities of the query do, when both make the same
classes. -/
theorem PlanOf.edges_hold_iff
    (hcount : sql.classCount + query.fromTable.length = sql.scope.columnVec.length + 1)
    (hdifferent : ∀ pair ∈ sql.united, pair.1 ≠ pair.2) (rows : TableEntity → List Data) :
    (ret.edgesOf root).all (edgeHolds rows) = true ↔ ∀ pair ∈ sql.united,
      (sql.scope.valueOf rows pair.1).equates (sql.scope.valueOf rows pair.2) = true := by
  have hR := equivalence_equates (sql.scope.valueOf rows)
  have hid : ∀ x y, (id x : Nat) = id y →
      x = y ∨ (sql.scope.valueOf rows x).equates (sql.scope.valueOf rows y) = true :=
    fun _ _ heq => .inl heq
  rw [List.all_eq_true]
  constructor
  · intro hedges pair hpair
    obtain ⟨hi, hj⟩ := h.sound.united pair hpair
    have hpairs : ∀ pair ∈ ret.joinPairs sql.scope root, pair.1 = pair.2 ∨
        (sql.scope.valueOf rows pair.1).equates (sql.scope.valueOf rows pair.2) = true := by
      intro pair hpair
      obtain ⟨edge, hedge, rfl⟩ := List.mem_map.mp hpair
      exact .inr ((h.edgeHolds_eq rows hedge) ▸ hedges edge hedge)
    have hjoined := h.classCount_iff.mp hcount pair.1 hi pair.2 hj (uniteAll_mem hpair)
    exact (uniteAll_le hR hid hpairs hjoined).resolve_left (hdifferent pair hpair)
  · intro hunited edge hedge
    obtain ⟨-, -, hrep⟩ := h.edge hedge
    rw [h.edgeHolds_eq rows hedge]
    exact (uniteAll_le hR hid (fun pair hpair => .inr (hunited pair hpair)) hrep).resolve_left
      (h.number_ne hedge)

end Edges

/-- The condition of a query holds exactly if the filters and the edges of its plan do. -/
theorem QueryPlan.holds_iff {columnToTables : String → Option (List String)} {query : Query}
    {sql : ParsedSQL} {ret : Pipeline} {root : Nat}
    (h : QueryPlan columnToTables query sql ret root) (hans : sql.Answerable query)
    (likeMatch : List UInt8 → List UInt8 → Bool) {rows : TableEntity → List Data}
    (hfit : sql.scope.RowsFit rows) :
    query.whereClause.holds sql.scope columnToTables likeMatch rows = true ↔
      (∀ entity ∈ sql.scope.entities,
        Filter.passes likeMatch (sql.filters entity) (rows entity) = true) ∧
      (ret.edgesOf root).all (edgeHolds rows) = true := by
  obtain ⟨junk, state, hparse, hfilters, hunited⟩ := h.parsed
  obtain ⟨⟨out, state'⟩, hparse, h₁⟩ := bind_eq_ok.mp hparse
  have hstart : ParseState.Satisfied sql.scope likeMatch rows {} := ⟨by simp, by simp⟩
  have hselected : ∀ c ∈ query.whereClause.conjuncts,
      c.Selected sql.scope columnToTables likeMatch rows ↔
        c.holds sql.scope columnToTables likeMatch rows = true := fun c hc => by
    simp [Expr.Selected, hans.plain c hc]
  have hstate : state.Satisfied sql.scope likeMatch rows ↔
      query.whereClause.holds sql.scope columnToTables likeMatch rows = true := by
    rw [← Except.ok.inj h₁, ParseState.satisfied_insertOut,
      parseExprImpl_top h.scopeSound hfit hans.wellFormed hparse, and_iff_right hstart,
      Expr.holds_iff_conjuncts]
    exact forall₂_congr hselected
  rw [← hstate, h.edges_hold_iff hans.classes hans.different, hunited, hfilters]
  simp only [Filter.passes_iff]
  exact ⟨fun hs => ⟨hs.filters, hs.united⟩, fun hs => ⟨hs.1, hs.2⟩⟩

/-! ## Keys -/

theorem OutputColumn.valueIn_hasType {rows : TableEntity → List Data} {col : OutputColumn}
    {attributes : List Attribute} (hattributes : attributesMap col.entity.table = some attributes)
    (hcol : ⟨col.type, col.column⟩ ∈ attributes) (hrow : HasTypes attributes (rows col.entity)) :
    (col.valueIn rows).HasType col.type := by
  obtain ⟨i, hi⟩ := Scope.columnIdx_of_mem hattributes hcol col.entity.id
  obtain ⟨attributes', hattributes', hfind⟩ := columnIdx_eq_ok.mp hi
  obtain rfl : attributes' = attributes := Option.some.inj (hattributes'.symm.trans hattributes)
  obtain ⟨attr, hattr, hname⟩ := findIdx?_name hfind
  have hsame : attr = ⟨col.type, col.column⟩ :=
    List.inj_on_of_nodup_map (attributesMap_nodup hattributes) (List.mem_of_getElem? hattr) hcol
      hname
  unfold valueIn columnValue
  have hi : columnIdx col.column col.entity = .ok i := hi
  rw [hi]
  have hlt : i < (rows col.entity).length := by
    rw [hrow.length_eq, List.length_map]
    exact (List.getElem?_eq_some_iff.mp hattr).1
  have hget := List.Forall₂.get hrow hlt (by rw [← hrow.length_eq]; exact hlt)
  have htype : attributes'[i]? = some ⟨col.type, col.column⟩ := hsame ▸ hattr
  simp only [List.get_eq_getElem, List.getElem_map, (List.getElem?_eq_some_iff.mp htype).2] at hget
  simpa [List.getD_eq_getElem?_getD, hlt] using hget

namespace Pipeline

/-- The row of an entity is one of the rows of its input. -/
theorem rowsOf_mem {ret : Pipeline} {tables : Nat → List (List Data)} {inputIds : List Nat}
    {c : List (Nat × List Data)} (hc : c ∈ choices tables inputIds) {entity : TableEntity}
    (hentity : entity ∈ ret.entitiesAt inputIds) : ∃ inputId filter,
      ret.inputs[inputId]? = some (entity, filter) ∧ ret.rowsOf c entity ∈ tables inputId := by
  obtain ⟨hfst, hmem⟩ := mem_choices hc
  obtain ⟨inputId, hid, hinput⟩ := List.mem_filterMap.mp hentity
  rw [← hfst] at hid
  obtain ⟨source, hsource, rfl⟩ := List.mem_map.mp hid
  unfold rowsOf
  cases hfind : c.find? fun source => ret.inputs[source.1]?.map Prod.fst = some entity with
  | none => simpa [hinput] using List.find?_eq_none.mp hfind source hsource
  | some found =>
    have hfound := List.find?_some hfind
    simp only [decide_eq_true_eq, Option.map_eq_some_iff] at hfound
    obtain ⟨⟨entity', filter⟩, hget, rfl⟩ := hfound
    exact ⟨found.1, filter, hget, hmem found (List.mem_of_find?_eq_some hfind)⟩

end Pipeline

section Keys

variable {query : Query} {sql : ParsedSQL} {ret : Pipeline} {root : Nat}
  (h : PlanOf query sql ret root)
include h

theorem PlanOf.inSchema {nodeIdx : Nat} (hlt : nodeIdx < ret.nodes.length) :
    ∀ col ∈ ret.columnsOf nodeIdx, col.InSchema := by
  obtain ⟨node, required, -, -, hok⟩ := h.nodes nodeIdx (Nat.zero_le _) hlt
  exact Names.inSchema hok.names

variable (hans : sql.Answerable query)
include hans

theorem PlanOf.join_int32 {nodeIdx : Nat} {node : PlanNode} {left right leftAttr rightAttr : Nat}
    {leftCol rightCol : OutputColumn} (hjoin : Pipeline.IsJoin sql ret nodeIdx node left right
      leftAttr rightAttr leftCol rightCol) :
    leftCol.type = .int32 ∧ rightCol.type = .int32 := by
  obtain ⟨hgetl, hgetr, -⟩ := h.graph hjoin.edge
  obtain ⟨hl, hr⟩ := hans.int32 _ _ _ hjoin.edge
  have htype : ∀ (nodeIdx i : Nat) (col : OutputColumn), nodeIdx < ret.nodes.length →
      (ret.columnsOf nodeIdx)[i]? = some col →
      sql.scope.columnVec[sql.scope.number col.entity col.column]? = some (col.entity, col.column) →
      sql.scope.columnType (sql.scope.number col.entity col.column) = some .int32 →
      col.type = .int32 := by
    intro nodeIdx i col hlt hcol hget hint
    obtain ⟨attributes, hattributes, hattr⟩ := h.inSchema hlt col (List.mem_of_getElem? hcol)
    have hentity := (h.scopeSound.columnVec _ _ (List.mem_of_getElem? hget)).1
    have hown := h.scopeSound.columnType_number hentity hattributes hattr
    exact Option.some.inj (hown.symm.trans hint)
  exact ⟨htype left leftAttr leftCol (hjoin.left_lt.trans hjoin.lt) hjoin.left_column hgetl hl,
    htype right rightAttr rightCol (hjoin.right_lt.trans hjoin.lt) hjoin.right_column hgetr hr⟩

/-- On rows of the types of the schema the joins compare values. -/
theorem PlanOf.comparesValues {tables : Nat → List (List Data)}
    (hfit : ret.TablesFit HasTypes tables) :
    ret.ComparesValues sql Data.getInt32 tables := by
  intro nodeIdx node left right leftAttr rightAttr leftCol rightCol hjoin l hl r hr
  obtain ⟨hintl, hintr⟩ := h.join_int32 hans hjoin
  have hvalue : ∀ (child i : Nat) (col : OutputColumn), child < ret.nodes.length →
      (ret.columnsOf child)[i]? = some col → col.entity ∈ ret.entitiesOf child →
      col.type = .int32 → ∀ c ∈ choices tables (ret.inputsOf child),
        (col.valueIn (ret.rowsOf c)).HasType .int32 := by
    intro child i col hlt hcol hentity htype c hc
    obtain ⟨attributes, hattributes, hattr⟩ := h.inSchema hlt col (List.mem_of_getElem? hcol)
    obtain ⟨inputId, filter, hinput, hrow⟩ := Pipeline.rowsOf_mem hc hentity
    obtain ⟨attributes', hattributes', hrows⟩ := hfit inputId col.entity filter hinput
    obtain rfl : attributes' = attributes := Option.some.inj (hattributes'.symm.trans hattributes)
    exact htype ▸ OutputColumn.valueIn_hasType hattributes hattr (hrows _ hrow)
  have hx := hvalue left leftAttr leftCol (hjoin.left_lt.trans hjoin.lt) hjoin.left_column
    hjoin.left_mem hintl l hl
  have hy := hvalue right rightAttr rightCol (hjoin.right_lt.trans hjoin.lt) hjoin.right_column
    hjoin.right_mem hintr r hr
  generalize leftCol.valueIn (ret.rowsOf l) = x at hx ⊢
  generalize rightCol.valueIn (ret.rowsOf r) = y at hy ⊢
  rw [Data.equates_iff]
  cases x with
  | null => simp [Data.getInt32]
  | int32 v =>
    cases y with
    | null => simp [Data.getInt32]
    | int32 w => simp [Data.getInt32]
    | _ => cases hy
  | _ => cases hx

end Keys

/-! ## The rows of the plan -/

section Answer

variable {columnToTables : String → Option (List String)} {query : Query} {sql : ParsedSQL}
  {ret : Pipeline} {root : Nat} (h : QueryPlan columnToTables query sql ret root)
include h

/-- The columns of the root have the selected values. -/
theorem QueryPlan.map_valueIn (rows : TableEntity → List Data) :
    (ret.columnsOf root).map (OutputColumn.valueIn rows) =
      query.selected.map (ColumnRef.value sql.scope columnToTables rows) := by
  have hone : ∀ col ref attr, OutputColumn.Names col attr →
      SelectsAttr sql.scope columnToTables ref attr →
      col.valueIn rows = ref.value sql.scope columnToTables rows := by
    rintro col ref ⟨entity, column⟩ ⟨rfl, rfl, attributes, hattributes, hattr⟩ ⟨junk, hextract⟩
    obtain ⟨i, hi⟩ := Scope.columnIdx_of_mem hattributes hattr col.entity.id
    exact ((h.scopeSound.resolve hextract hi).2 rows).symm
  have hnames := h.names
  have hselected := h.selected
  generalize ret.columnsOf root = columns at hnames
  generalize query.selected = refs at hselected
  generalize sql.outputAttrs = attrs at hnames hselected
  induction hnames generalizing refs with
  | nil =>
    cases hselected
    rfl
  | cons hname _ ih =>
    cases hselected with
    | cons href hrefs => rw [List.map_cons, List.map_cons, hone _ _ _ hname href, ih _ hrefs]

theorem QueryPlan.entitiesOf_eq : ret.entitiesOf root = ret.inputs.map Prod.fst := by
  unfold Pipeline.entitiesOf
  rw [h.scanned]
  apply List.ext_getElem?
  intro i
  have hall : ∀ inputId ∈ List.range ret.inputs.length,
      ret.inputs[inputId]?.map Prod.fst = some ((ret.inputs.map Prod.fst).getD inputId ⟨"", 0⟩) :=
    fun inputId hid => by
      have hlt := List.mem_range.mp hid
      simp [List.getD_eq_getElem?_getD, hlt]
  rw [List.filterMap_congr hall]
  by_cases hi : i < ret.inputs.length
  · simp [List.getD_eq_getElem?_getD, hi]
  · simp [hi]

/-- A plan over the filtered tables has the rows of the answer. -/
theorem QueryPlan.rows_perm (hans : sql.Answerable query)
    {likeMatch : List UInt8 → List UInt8 → Bool} {base : String → List (List Data)}
    (hbase : ∀ entity ∈ sql.scope.entities, ∀ attributes,
      attributesMap entity.table = some attributes →
        ∀ row ∈ base entity.table, HasTypes attributes row) {tables : Nat → List (List Data)}
    (htables : ∀ inputId entity filter, ret.inputs[inputId]? = some (entity, filter) →
      tables inputId = (base entity.table).filter (Filter.passes likeMatch filter)) :
    (evalNode Data.getInt32 (fun inputId attrs => (tables inputId).map (project attrs)) ret.nodes
      root).Perm (query.answer sql.scope columnToTables likeMatch base) := by
  have hfit : ret.TablesFit HasTypes tables := by
    intro inputId entity filter hinput
    have hentity := h.inputs _ (List.mem_of_getElem? hinput)
    obtain ⟨attributes, first, hnumbers⟩ := h.scopeSound.numbers entity hentity
    refine ⟨attributes, hnumbers.schema, fun row hrow => ?_⟩
    rw [htables inputId entity filter hinput] at hrow
    exact hbase entity hentity _ hnumbers.schema row (List.mem_of_mem_filter hrow)
  have hwidth : ret.TablesFit HasWidth tables := fun inputId entity filter hinput => by
    obtain ⟨attributes, hattributes, hrows⟩ := hfit inputId entity filter hinput
    refine ⟨attributes, hattributes, fun row hrow => ?_⟩
    have hlen := (hrows row hrow).length_eq
    rwa [List.length_map] at hlen
  obtain ⟨p, hp⟩ : ∃ p : TableEntity → List Data → Bool,
      p = fun entity => Filter.passes likeMatch (sql.filters entity) := ⟨_, rfl⟩
  -- The choices of rows of the inputs are those of rows of the entities.
  have hchoices : (choices tables (ret.inputsOf root)).map ret.rowsOf =
      assignments (fun entity => (base entity.table).filter (p entity)) (fun _ => [])
        (ret.entitiesOf root) := by
    refine Pipeline.map_rowsOf_choices ?_
    rw [h.scanned, h.entitiesOf_eq, List.forall₂_iff_get]
    refine ⟨by simp, fun i hi hi' => ?_⟩
    have hlt : i < ret.inputs.length := by simpa using hi
    obtain ⟨⟨entity, filter⟩, hinput⟩ : ∃ input, ret.inputs[i]? = some input :=
      ⟨_, List.getElem?_eq_getElem hlt⟩
    have hget : ret.inputs[i] = (entity, filter) := (List.getElem?_eq_some_iff.mp hinput).2
    have hfilter : filter = sql.filters entity :=
      h.filters (entity, filter) (List.mem_of_getElem? hinput)
    simp only [List.get_eq_getElem, List.getElem_range, List.getElem_map, hget]
    exact ⟨by rw [hinput]; rfl, by rw [htables i entity filter hinput, hfilter, hp]⟩
  have hrows : evalNode Data.getInt32 (fun inputId attrs => (tables inputId).map (project attrs))
      ret.nodes root = ((assignments (fun entity => (base entity.table).filter (p entity))
        (fun _ => []) (ret.entitiesOf root)).filter fun rows =>
          (ret.edgesOf root).all (edgeHolds rows)).map fun rows =>
            (ret.columnsOf root).map (OutputColumn.valueIn rows) := by
    rw [← Pipeline.map_fst_evalRows, h.nodes.evalRows_eq h.valid hwidth
      (h.comparesValues hans hfit) root h.root_lt h.nodup, ← hchoices, List.filter_map,
      List.map_map, List.map_map]
    rfl
  have hnodup := h.scopeSound.nodup
  rw [hrows]
  refine (((assignments_perm h.entities h.nodup).filter _).map _).trans (.of_eq ?_)
  rw [assignments_filter p hnodup, List.filter_filter]
  have hholds : ∀ rows ∈ assignments (fun entity => base entity.table) (fun _ => [])
      sql.scope.entities,
      ((ret.edgesOf root).all (edgeHolds rows) &&
        sql.scope.entities.all fun entity => p entity (rows entity)) =
      query.whereClause.holds sql.scope columnToTables likeMatch rows := by
    intro rows hrows
    have hrowsFit : sql.scope.RowsFit rows := fun entity hentity attributes hattributes =>
      hbase entity hentity _ hattributes _ (mem_assignments hnodup hrows entity hentity)
    rw [Bool.eq_iff_iff, h.holds_iff hans likeMatch hrowsFit, Bool.and_eq_true, and_comm, hp]
    exact and_congr_left' List.all_eq_true
  rw [List.filter_congr hholds]
  exact List.map_congr_left fun rows _ => h.map_valueIn rows

end Answer

end HashJoin
