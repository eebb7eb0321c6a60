import HashJoin.JoinUnion
import HashJoin.LoadPipelineProof

/-!
# Which plan trees are accepted

A plan is made of the tree of another database unless `load_join_pipeline` throws. It does not
throw if each scan names a table of the query, each join has an edge of the join graph between its
sides, the selected columns belong to the scanned tables, and these tables can be loaded. The order
in which the sets of tables and the join graph are gone through decides which edge a join gets, but
not whether it gets one.
-/

namespace HashJoin

/-- The tables of the tree are known by their aliases. -/
def PlanTree.Aliased (scope : Scope) : PlanTree → Prop
  | other plan => plan.Aliased scope
  | hashJoin leftHash rightHash left right =>
    leftHash ≠ rightHash ∧ left.Aliased scope ∧ right.Aliased scope
  | scan aliasName _ => ∃ name entity, aliasName = some name ∧ scope.aliasMap name = some entity
  | otherJoin | unsupported _ => False

/-- The tables of the tree are known, and each of its joins has an edge between its sides. -/
def PlanTree.Accepted (sql : ParsedSQL) : PlanTree → Prop
  | other plan => plan.Accepted sql
  | hashJoin leftHash rightHash left right =>
    leftHash ≠ rightHash ∧ left.Aliased sql.scope ∧ right.Aliased sql.scope ∧
      (∃ l ∈ left.entities sql.scope, ∃ r ∈ right.entities sql.scope,
        (sql.joinGraph (l, r)).isSome) ∧
      left.Accepted sql ∧ right.Accepted sql
  | scan aliasName relationName =>
    ∃ entity, scanEntity sql.scope aliasName relationName = .ok entity
  | otherJoin | unsupported _ => False

/-- The table has the column, as far as the schema says. -/
def HasColumn (attr : TableEntity × String) : Prop := ∃ i, columnIdx attr.2 attr.1 = .ok i

theorem extractEntities_ok_iff {scope : Scope} {plan : PlanTree} :
    (∃ entities, extractEntities scope.aliasMap plan = .ok entities) ↔ plan.Aliased scope := by
  induction plan with
  | other plan ih => exact ih
  | hashJoin leftHash rightHash left right ihl ihr =>
    rw [extractEntities]
    by_cases hhash : leftHash = rightHash
    · simp [hhash, PlanTree.Aliased]
    · rw [if_neg hhash]
      constructor
      · rintro ⟨entities, h⟩
        obtain ⟨leftEntities, hl, h₁⟩ := bind_eq_ok.mp h
        obtain ⟨rightEntities, hr, -⟩ := bind_eq_ok.mp h₁
        exact ⟨hhash, ihl.mp ⟨_, hl⟩, ihr.mp ⟨_, hr⟩⟩
      · rintro ⟨-, hl, hr⟩
        obtain ⟨leftEntities, hl⟩ := ihl.mpr hl
        obtain ⟨rightEntities, hr⟩ := ihr.mpr hr
        exact ⟨_, by rw [hl, hr]; rfl⟩
  | otherJoin => simp [extractEntities, PlanTree.Aliased]
  | scan aliasName relationName =>
    cases aliasName with
    | none => simp [extractEntities, PlanTree.Aliased]
    | some name =>
      cases halias : scope.aliasMap name <;> simp [extractEntities, PlanTree.Aliased, halias]
  | unsupported nodeType => simp [extractEntities, PlanTree.Aliased]

/-! ## Attributes that are found -/

theorem findColumn_isSome (columns : List OutputColumn) (attr : TableEntity × String) :
    (∃ output, findColumn columns attr = some output) ↔
      ∃ col ∈ columns, col.entity = attr.1 ∧ col.column = attr.2 := by
  constructor
  · rintro ⟨⟨col, i⟩, h⟩
    obtain ⟨hget, hentity, hcolumn⟩ := findColumn_eq_some h
    exact ⟨col, List.mem_of_getElem? hget, hentity, hcolumn⟩
  · rintro ⟨col, hcol, hname⟩
    obtain ⟨i, hi, rfl⟩ := List.mem_iff_getElem.mp hcol
    have hfound : (columns.zipIdx.find? fun x =>
        x.1.entity = attr.1 ∧ x.1.column = attr.2).isSome :=
      List.find?_isSome.mpr ⟨(columns[i], i), by simp [List.mem_zipIdx_iff_getElem?, hi],
        by simpa using hname⟩
    exact Option.isSome_iff_exists.mp hfound

theorem resolveAttr_ok_iff {columns : List OutputColumn} {attr : TableEntity × String} :
    (∃ output, resolveAttr columns attr = .ok output) ↔
      ∃ col ∈ columns, col.entity = attr.1 ∧ col.column = attr.2 := by
  rw [← findColumn_isSome]
  unfold resolveAttr
  cases findColumn columns attr with
  | none => simp
  | some output => simp

theorem hasColumn_iff {attr : TableEntity × String} {attributes : List Attribute}
    (hattributes : attributesMap attr.1.table = some attributes) :
    HasColumn attr ↔ ∃ field ∈ attributes, field.name = attr.2 := by
  have hcolumn : HasColumn attr ↔ ∃ i, attributes.findIdx? (·.name = attr.2) = some i := by
    refine exists_congr fun i => columnIdx_eq_ok.trans ?_
    rw [hattributes]
    simp
  rw [hcolumn, ← Option.isSome_iff_exists, List.findIdx?_isSome, List.any_eq_true]
  simp

theorem mem_tableColumns {entity : TableEntity} {attributes : List Attribute}
    (hattributes : attributesMap entity.table = some attributes) {attr : TableEntity × String} :
    (∃ col ∈ tableColumns entity attributes, col.entity = attr.1 ∧ col.column = attr.2) ↔
      attr.1 = entity ∧ HasColumn attr := by
  unfold tableColumns
  constructor
  · rintro ⟨col, hcol, hentity, hname⟩
    obtain ⟨field, hmem, rfl⟩ := List.mem_map.mp hcol
    obtain rfl : entity = attr.1 := hentity
    exact ⟨rfl, (hasColumn_iff hattributes).mpr ⟨field, hmem, hname⟩⟩
  · rintro ⟨rfl, hcolumn⟩
    obtain ⟨field, hmem, hname⟩ := (hasColumn_iff hattributes).mp hcolumn
    exact ⟨_, List.mem_map_of_mem hmem, rfl, hname⟩

theorem OutputColumn.Names.hasColumn {col : OutputColumn} {attr : TableEntity × String}
    (h : col.Names attr) : HasColumn attr := by
  obtain ⟨hentity, hname, attributes, hattributes, hmem⟩ := h
  rw [hentity] at hattributes
  exact (hasColumn_iff hattributes).mpr ⟨_, hmem, hname⟩

/-! ## Attributes that are split -/

section Split

variable {leftEntities rightEntities : List TableEntity}

theorem splitRequired_eq_ok {required : List (TableEntity × String)}
    {sides : List (TableEntity × String) × List (TableEntity × String)}
    (h : splitRequired leftEntities rightEntities required = .ok sides) :
    ∀ attr ∈ required, attr.1 ∈ leftEntities ∨ attr.1 ∈ rightEntities := by
  induction required generalizing sides with
  | nil => simp
  | cons attr required ih =>
    rw [List.forall_mem_cons]
    unfold splitRequired at h
    split at h
    · next hl =>
      obtain ⟨sides', hsides, -⟩ := bind_eq_ok.mp h
      exact ⟨.inl hl, ih hsides⟩
    · split at h
      · next hr =>
        obtain ⟨sides', hsides, -⟩ := bind_eq_ok.mp h
        exact ⟨.inr hr, ih hsides⟩
      · cases h

/-- Each required attribute goes to a side that has its table. -/
theorem splitRequired_ok {required : List (TableEntity × String)}
    (h : ∀ attr ∈ required, attr.1 ∈ leftEntities ∨ attr.1 ∈ rightEntities) : ∃ left right,
      splitRequired leftEntities rightEntities required = .ok (left, right) ∧
      (∀ attr ∈ left, attr ∈ required ∧ attr.1 ∈ leftEntities) ∧
      (∀ attr ∈ right, attr ∈ required ∧ attr.1 ∈ rightEntities) ∧
      ∀ attr ∈ required, attr ∈ left ∨ attr ∈ right := by
  induction required with
  | nil => exact ⟨[], [], rfl, by simp⟩
  | cons attr required ih =>
    rw [List.forall_mem_cons] at h
    obtain ⟨left, right, hsplit, hleft, hright, hall⟩ := ih h.2
    have hleft' : ∀ attr' ∈ left, attr' ∈ attr :: required ∧ attr'.1 ∈ leftEntities :=
      fun attr' hmem => ⟨List.mem_cons_of_mem _ (hleft attr' hmem).1, (hleft attr' hmem).2⟩
    have hright' : ∀ attr' ∈ right, attr' ∈ attr :: required ∧ attr'.1 ∈ rightEntities :=
      fun attr' hmem => ⟨List.mem_cons_of_mem _ (hright attr' hmem).1, (hright attr' hmem).2⟩
    unfold splitRequired
    by_cases hl : attr.1 ∈ leftEntities
    · refine ⟨attr :: left, right, by rw [if_pos hl, hsplit]; rfl,
        List.forall_mem_cons.mpr ⟨⟨List.mem_cons_self, hl⟩, hleft'⟩, hright',
        List.forall_mem_cons.mpr ⟨.inl List.mem_cons_self, fun attr' hmem => ?_⟩⟩
      exact (hall attr' hmem).imp_left (List.mem_cons_of_mem _)
    · have hr := h.1.resolve_left hl
      refine ⟨left, attr :: right, by rw [if_neg hl, if_pos hr, hsplit]; rfl, hleft',
        List.forall_mem_cons.mpr ⟨⟨List.mem_cons_self, hr⟩, hright'⟩,
        List.forall_mem_cons.mpr ⟨.inr List.mem_cons_self, fun attr' hmem => ?_⟩⟩
      exact (hall attr' hmem).imp_right (List.mem_cons_of_mem _)

end Split

theorem mem_withAttr {required : List (TableEntity × String)} {attr attr' : TableEntity × String} :
    attr' ∈ withAttr required attr ↔ attr' ∈ required ∨ attr' = attr := by
  unfold withAttr
  split
  · next hmem => exact ⟨.inl, fun h => h.elim id fun h => h ▸ hmem⟩
  · simp

theorem scanEntity_mem {scope : Scope} (hsound : scope.Sound)
    {aliasName relationName : Option String} {entity : TableEntity}
    (h : scanEntity scope aliasName relationName = .ok entity) : entity ∈ scope.entities := by
  cases aliasName with
  | some name =>
    cases halias : scope.aliasMap name with
    | none => simp [scanEntity, halias] at h
    | some entity' =>
      simp only [scanEntity, halias] at h
      exact Except.ok.inj h ▸ hsound.aliases name entity' halias
  | none =>
    cases relationName with
    | none => cases h
    | some name =>
      cases hcount : scope.tableCounts name with
      | none => simp [scanEntity, hcount] at h
      | some count =>
        simp only [scanEntity, hcount] at h
        split at h
        · next hone =>
          rw [← Except.ok.inj h]
          exact (hsound.counted _).mpr ⟨count, hcount, le_rfl, by simp [hone]⟩
        · cases h

/-! ## The recursion -/

section Recurse

variable {sql : ParsedSQL} {required : List (TableEntity × String)} {ret : Pipeline}
  {order : List Bool → List Edge → List Edge}
  {σ : Type} {load : Loader σ} {state state' : σ}
  (horder : ∀ path edges, (order path edges).Perm edges)

include horder in
/-- A tree of which a plan is made is accepted, and has the tables of the required attributes. -/
theorem recurse_accepted {plan : PlanTree} {result : (Nat × List OutputColumn) × Pipeline}
    (h : recurse load sql order plan required ret state = .ok (result, state')) :
    plan.Accepted sql ∧ ∀ attr ∈ required, attr.1 ∈ plan.entities sql.scope := by
  induction plan generalizing order required ret result state state' with
  | other plan ih => exact ih (fun path => horder _) h
  | hashJoin leftHash rightHash left right ihl ihr =>
    obtain ⟨hhash, leftEntities, rightEntities, edge, _, _, _, _, _, _, _, hentitiesl, hentitiesr,
      hedge, hsplit, hl, hr, -⟩ := recurse_hashJoin_eq_ok_iff.mp h
    have hmem := (horder [] _).mem_iff.mp (lastEdge_eq_ok hedge)
    obtain ⟨hleft, hright, hgraph⟩ := mem_crossingEdges hmem
    have hmeml := extractEntities_eq_ok hentitiesl
    have hmemr := extractEntities_eq_ok hentitiesr
    refine ⟨⟨hhash, extractEntities_ok_iff.mp ⟨_, hentitiesl⟩,
      extractEntities_ok_iff.mp ⟨_, hentitiesr⟩,
      ⟨_, (hmeml _).mp hleft, _, (hmemr _).mp hright, by rw [hgraph]; rfl⟩,
      (ihl (fun path => horder _) hl).1, (ihr (fun path => horder _) hr).1⟩, fun attr hattr => ?_⟩
    rw [PlanTree.entities, List.mem_append, ← hmeml, ← hmemr]
    exact splitRequired_eq_ok hsplit attr hattr
  | otherJoin => cases h
  | scan aliasName relationName =>
    obtain ⟨entity, attributes, outputs, hentity, hattributes, -, houtputs, -⟩ :=
      recurseScan_eq_ok_iff.mp h
    refine ⟨⟨entity, hentity⟩, fun attr hattr => ?_⟩
    obtain ⟨output, -, hresolve⟩ := exists_of_forall₂ (mapM_eq_ok_iff.mp houtputs) hattr
    obtain ⟨rfl, -⟩ := (mem_tableColumns hattributes).mp (resolveAttr_ok_iff.mp ⟨_, hresolve⟩)
    simp [PlanTree.entities, hentity, Except.toOption]
  | unsupported nodeType => cases h

theorem crossingEdges_ne_nil {graph : JoinGraph} {leftEntities rightEntities : List TableEntity}
    {l r : TableEntity} (hl : l ∈ leftEntities) (hr : r ∈ rightEntities)
    (h : (graph (l, r)).isSome) : crossingEdges graph leftEntities rightEntities ≠ [] := by
  obtain ⟨columns, hcolumns⟩ := Option.isSome_iff_exists.mp h
  have hedge : (⟨l, r, columns.1, columns.2⟩ : Edge) ∈
      crossingEdges graph leftEntities rightEntities :=
    List.mem_flatMap.mpr ⟨l, hl, List.mem_filterMap.mpr ⟨r, hr, by rw [hcolumns]; rfl⟩⟩
  exact List.ne_nil_of_mem hedge

theorem lastEdge_ok {edges : List Edge} (h : edges ≠ []) : ∃ edge, lastEdge edges = .ok edge := by
  unfold lastEdge
  rw [List.getLast?_eq_some_getLast h]
  exact ⟨_, rfl⟩

theorem resolveAttrs_ok {columns : List OutputColumn}
    (h : ∀ attr ∈ required, ∃ col ∈ columns, col.entity = attr.1 ∧ col.column = attr.2) :
    ∃ outputs, required.mapM (resolveAttr columns) = .ok outputs := by
  obtain ⟨outputs, houtputs, -⟩ := mapM_ok (f := resolveAttr columns) (P := fun _ _ => True)
    fun attr hattr => (resolveAttr_ok_iff.mpr (h attr hattr)).imp fun _ h => ⟨h, trivial⟩
  exact ⟨outputs, houtputs⟩

/-- The column of each attribute that a side was made for is there. -/
theorem Recursed.exists_column {plan : PlanTree}
    {result : (Nat × List OutputColumn) × Pipeline} (h : Recursed sql plan required ret result)
    {attr : TableEntity × String} (hattr : attr ∈ required) :
    ∃ col ∈ result.1.2, col.entity = attr.1 ∧ col.column = attr.2 := by
  obtain ⟨col, hcol, hentity, hcolumn, -⟩ := exists_of_forall₂ h.names.flip hattr
  exact ⟨col, hcol, hentity, hcolumn⟩

theorem finishJoin_ok {buildLeft : Bool} {edge : Edge} {left right : Nat × List OutputColumn}
    (hleft : ∃ col ∈ left.2, col.entity = edge.leftEntity ∧ col.column = edge.leftColumn)
    (hright : ∃ col ∈ right.2, col.entity = edge.rightEntity ∧ col.column = edge.rightColumn)
    (hrequired : ∀ attr ∈ required, ∃ col ∈ left.2 ++ right.2,
      col.entity = attr.1 ∧ col.column = attr.2) :
    ∃ result, finishJoin required buildLeft edge left right ret = .ok result := by
  obtain ⟨⟨leftCol, leftAttr⟩, hfindl⟩ :=
    (findColumn_isSome left.2 (edge.leftEntity, edge.leftColumn)).mpr hleft
  obtain ⟨⟨rightCol, rightAttr⟩, hfindr⟩ :=
    (findColumn_isSome right.2 (edge.rightEntity, edge.rightColumn)).mpr hright
  obtain ⟨outputs, houtputs⟩ := resolveAttrs_ok hrequired
  unfold finishJoin
  simp only [hfindl, hfindr, houtputs, ok_bind]
  exact ⟨_, rfl⟩

/-- A side is made for its share of the attributes and for its column of the edge. -/
theorem required_of_side {scope : Scope} {plan side : PlanTree} {entities : List TableEntity}
    (hmem : ∀ entity, entity ∈ entities ↔ entity ∈ side.entities scope)
    (hrequired : ∀ attr ∈ required, attr.1 ∈ plan.entities scope ∧ HasColumn attr)
    {sideRequired : List (TableEntity × String)}
    (hside : ∀ attr ∈ sideRequired, attr ∈ required ∧ attr.1 ∈ entities)
    {edgeAttr : TableEntity × String} (hentity : edgeAttr.1 ∈ entities)
    (hcolumn : HasColumn edgeAttr) :
    ∀ attr ∈ withAttr sideRequired edgeAttr, attr.1 ∈ side.entities scope ∧ HasColumn attr := by
  intro attr hattr
  rcases mem_withAttr.mp hattr with hattr | rfl
  · obtain ⟨hreq, hin⟩ := hside attr hattr
    exact ⟨(hmem _).mp hin, (hrequired attr hreq).2⟩
  · exact ⟨(hmem _).mp hentity, hcolumn⟩

include horder in
/-- A plan is made of every accepted tree, for attributes of its tables, as far as no table has to
be loaded. -/
theorem recurse_ok (hsound : sql.scope.Sound)
    (hgraph : ∀ left right columns, sql.joinGraph (left, right) = some columns →
      HasColumn (left, columns.1) ∧ HasColumn (right, columns.2))
    (hvalid : ret.Valid) {plan : PlanTree} (haccepted : plan.Accepted sql)
    (hrequired : ∀ attr ∈ required, attr.1 ∈ plan.entities sql.scope ∧ HasColumn attr) :
    ∃ result, recurse planOnly sql order plan required ret () = .ok (result, ()) := by
  induction plan generalizing order required ret with
  | other plan ih => exact ih (fun path => horder _) hvalid haccepted hrequired
  | hashJoin leftHash rightHash left right ihl ihr =>
    obtain ⟨hhash, haliasedl, haliasedr, ⟨l, hl, r, hr, hlr⟩, hacceptedl, hacceptedr⟩ := haccepted
    obtain ⟨leftEntities, hentitiesl⟩ := extractEntities_ok_iff.mpr haliasedl
    obtain ⟨rightEntities, hentitiesr⟩ := extractEntities_ok_iff.mpr haliasedr
    have hmeml := extractEntities_eq_ok hentitiesl
    have hmemr := extractEntities_eq_ok hentitiesr
    have hedges : order [] (crossingEdges sql.joinGraph leftEntities rightEntities) ≠ [] :=
      fun hnil => crossingEdges_ne_nil ((hmeml l).mpr hl) ((hmemr r).mpr hr) hlr
        (List.perm_nil.mp (hnil ▸ (horder [] _).symm))
    obtain ⟨edge, hedge⟩ := lastEdge_ok hedges
    obtain ⟨hleft, hright, hcolumns⟩ :=
      mem_crossingEdges ((horder [] _).mem_iff.mp (lastEdge_eq_ok hedge))
    obtain ⟨hcolumnl, hcolumnr⟩ := hgraph _ _ _ hcolumns
    have hsides : ∀ attr ∈ required, attr.1 ∈ leftEntities ∨ attr.1 ∈ rightEntities := by
      intro attr hattr
      have hmem := (hrequired attr hattr).1
      rwa [PlanTree.entities, List.mem_append, ← hmeml, ← hmemr] at hmem
    obtain ⟨leftRequired, rightRequired, hsplit, hsidel, hsider, hall⟩ := splitRequired_ok hsides
    have hrequiredl := required_of_side hmeml hrequired hsidel hleft hcolumnl
    have hrequiredr := required_of_side hmemr hrequired hsider hright hcolumnr
    obtain ⟨⟨leftResult, ret₁⟩, hleftOk⟩ :=
      ihl (fun path => horder (false :: path)) hvalid hacceptedl hrequiredl
    have hspecl := recurse_spec (fun path => horder (false :: path)) hvalid hleftOk
    obtain ⟨⟨rightResult, ret₂⟩, hrightOk⟩ :=
      ihr (fun path => horder (true :: path)) hspecl.valid hacceptedr hrequiredr
    have hspecr := recurse_spec (fun path => horder (true :: path)) hspecl.valid hrightOk
    have hcolumns : ∀ attr ∈ required, ∃ col ∈ leftResult.2 ++ rightResult.2,
        col.entity = attr.1 ∧ col.column = attr.2 := by
      intro attr hattr
      rcases hall attr hattr with hattr | hattr
      · obtain ⟨col, hcol, hname⟩ := hspecl.exists_column (mem_withAttr.mpr (.inl hattr))
        exact ⟨col, List.mem_append_left _ hcol, hname⟩
      · obtain ⟨col, hcol, hname⟩ := hspecr.exists_column (mem_withAttr.mpr (.inl hattr))
        exact ⟨col, List.mem_append_right _ hcol, hname⟩
    have hfinish : ∃ result, finishJoin required leftHash edge leftResult rightResult ret₂ =
        .ok result :=
      finishJoin_ok (hspecl.exists_column (mem_withAttr.mpr (.inr rfl)))
        (hspecr.exists_column (mem_withAttr.mpr (.inr rfl))) hcolumns
    obtain ⟨result, hresult⟩ := hfinish
    exact ⟨result, recurse_hashJoin_eq_ok_iff.mpr ⟨hhash, _, _, _, _, _, _, _, (), _, _, hentitiesl,
      hentitiesr, hedge, hsplit, hleftOk, hrightOk, hresult⟩⟩
  | otherJoin => exact haccepted.elim
  | scan aliasName relationName =>
    obtain ⟨entity, hentity⟩ := haccepted
    obtain ⟨attributes, first, hnumbers⟩ :=
      hsound.numbers entity (scanEntity_mem hsound hentity)
    have hentities : PlanTree.entities sql.scope (.scan aliasName relationName) = [entity] := by
      simp [PlanTree.entities, hentity, Except.toOption]
    have hcolumns : ∀ attr ∈ required, ∃ col ∈ tableColumns entity attributes,
        col.entity = attr.1 ∧ col.column = attr.2 := by
      intro attr hattr
      obtain ⟨hmem, hcolumn⟩ := hrequired attr hattr
      rw [hentities, List.mem_singleton] at hmem
      exact (mem_tableColumns hnumbers.schema).mpr ⟨hmem, hcolumn⟩
    obtain ⟨outputs, houtputs⟩ := resolveAttrs_ok hcolumns
    exact ⟨_, recurseScan_eq_ok_iff.mpr
      ⟨entity, attributes, outputs, hentity, hnumbers.schema, rfl, houtputs, rfl⟩⟩
  | unsupported nodeType => exact haccepted.elim

end Recurse

/-- A plan is made of a tree exactly when it is accepted, the selected columns are columns of its
tables, and its tables are loaded one after another. -/
theorem loadJoinPipeline_ok_iff {σ : Type} (load : Loader σ)
    {columnToTables : String → Option (List String)} {env : ParseEnv} {query : Query}
    {sql : ParsedSQL} (hparse : parseSQL columnToTables env query = .ok sql)
    (order : IterationOrder Edge) (plan : PlanTree) (state : σ) :
    (∃ result, loadJoinPipeline load sql order plan state = .ok result) ↔
      plan.Accepted sql ∧
        (∀ attr ∈ sql.outputAttrs, attr.1 ∈ plan.entities sql.scope ∧ HasColumn attr) ∧
        ∃ state', load.loadAll 0 (plan.inputs sql) state = .ok state' := by
  have hsound := parseSQL_sound hparse
  have hscope := fromClause_sound hsound.scope
  constructor
  · rintro ⟨⟨⟨ret, root⟩, state'⟩, h⟩
    obtain ⟨⟨result, state₁⟩, hrecurse, -⟩ := bind_eq_ok.mp h
    obtain ⟨haccepted, htables⟩ := recurse_accepted order.perm hrecurse
    obtain ⟨columns, hspec⟩ := loadJoinPipeline_spec h
    have hinputs : ret.inputs = plan.inputs sql := hspec.inputs
    refine ⟨haccepted, fun attr hattr => ⟨htables attr hattr, ?_⟩, state', ?_⟩
    · obtain ⟨col, -, hnames⟩ := exists_of_forall₂ hspec.names.flip hattr
      exact OutputColumn.Names.hasColumn hnames
    · rw [← hinputs]
      exact (loadJoinPipeline_reload planOnly h).1
  · rintro ⟨haccepted, hrequired, state', hstate⟩
    have hgraph : ∀ left right columns, sql.joinGraph (left, right) = some columns →
        HasColumn (left, columns.1) ∧ HasColumn (right, columns.2) := by
      intro left right columns hcolumns
      obtain ⟨i, j, hi, hj, -⟩ := hsound.graph left right columns hcolumns
      exact ⟨(hscope.columnVec _ _ (List.mem_of_getElem? hi)).2,
        (hscope.columnVec _ _ (List.mem_of_getElem? hj)).2⟩
    obtain ⟨⟨⟨root, columns⟩, ret⟩, hrecurse⟩ :=
      recurse_ok order.perm hscope hgraph Pipeline.Valid.empty haccepted hrequired
    have hinputs : ret.inputs = plan.inputs sql :=
      (recurse_spec order.perm Pipeline.Valid.empty hrecurse).inputs
    -- The plan is there without its tables; now these are loaded.
    have hplan : loadJoinPipeline planOnly sql order plan () = .ok ((ret, root), ()) := by
      unfold loadJoinPipeline
      rw [hrecurse]
      rfl
    exact ⟨_, (loadJoinPipeline_reload load hplan).2 state state' (hinputs ▸ hstate)⟩

/-- In whatever order the sets are gone through, the keywords of link types get a plan once their
two tables are there. -/
theorem loadJoinPipeline_ok_iff_keywordLink :
    ∃ sql, parseSQL (fun _ => none) parseInOrder (keywordLink keywordId) = .ok sql ∧
      ∀ order, ∃ result, loadJoinPipeline (fun _ input loaded =>
        if input.1.table = "keyword" ∨ input.1.table = "link_type" then .ok (loaded ++ [input.1])
        else .error (.runtimeError "Cannot open file")) sql order linkKeywordPlan [] =
          .ok result := by
  have hall : ∀ (load : Loader (List TableEntity)) sql,
      parseSQL (fun _ => none) parseInOrder (keywordLink keywordId) = .ok sql →
      linkKeywordPlan.Accepted sql →
      (∀ attr ∈ sql.outputAttrs,
        attr.1 ∈ linkKeywordPlan.entities sql.scope ∧ HasColumn attr) →
      (∃ loaded, load.loadAll 0 (linkKeywordPlan.inputs sql) [] = .ok loaded) →
      ∃ sql, parseSQL (fun _ => none) parseInOrder (keywordLink keywordId) = .ok sql ∧
        ∀ order, ∃ result, loadJoinPipeline load sql order linkKeywordPlan [] = .ok result := by
    intro load sql hparse haccepted hrequired hloaded
    exact ⟨sql, hparse, fun order =>
      (loadJoinPipeline_ok_iff load hparse order linkKeywordPlan []).mpr
        ⟨haccepted, hrequired, hloaded⟩⟩
  refine hall _ _ rfl ?_ ?_ ⟨_, rfl⟩
  · exact ⟨by decide, ⟨_, _, rfl, rfl⟩, ⟨_, _, rfl, rfl⟩,
      ⟨⟨"link_type", 0⟩, by decide, ⟨"keyword", 0⟩, by decide, by decide⟩, ⟨_, rfl⟩, ⟨_, rfl⟩⟩
  · intro attr hattr
    obtain rfl : attr = (⟨"keyword", 0⟩, "keyword") := List.mem_singleton.mp hattr
    exact ⟨by decide, 1, rfl⟩

end HashJoin
