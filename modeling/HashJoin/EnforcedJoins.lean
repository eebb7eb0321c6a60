import HashJoin.JoinConditions
import HashJoin.ParseExprProof

/-!
# Which plans enforce all join conditions

Every two columns of one class are equal in all rows of a plan exactly if its joins, which are as
many as the tables less one, leave no more classes than the equalities of the query. If they leave
more, then tables of one row each show it.
-/

namespace HashJoin

open Relational UnionFind

/-! ## Tables of one row -/

namespace Scope

/-- The number of a column of an entity. -/
def number (scope : Scope) (entity : TableEntity) (column : String) : Nat :=
  scope.columnVec.idxOf (entity, column)

/-- The type of the column of that number. -/
def columnType (scope : Scope) (idx : Nat) : Option DataType := do
  let (entity, column) ← scope.columnVec[idx]?
  let attributes ← attributesMap entity.table
  let attr ← attributes.find? (·.name = column)
  attr.type

/-- The row of an entity from a value for each number. -/
def rowOf (scope : Scope) (value : Nat → Data) (entity : TableEntity) : List Data :=
  match attributesMap entity.table with
  | some attributes => attributes.map fun attr => value (scope.number entity attr.name)
  | none => []

variable {scope : Scope} {entity : TableEntity} {column : String} {i : Nat} {value : Nat → Data}

theorem Sound.number_eq (h : scope.Sound) (hget : scope.columnVec[i]? = some (entity, column)) :
    scope.number entity column = i := by
  obtain ⟨hi, hget⟩ := List.getElem?_eq_some_iff.mp hget
  unfold number
  rw [← hget, h.columnsNodup.idxOf_getElem]

theorem columnType_eq {attributes : List Attribute} {attr : Attribute}
    (hattributes : attributesMap entity.table = some attributes) (hattr : attr ∈ attributes)
    (hget : scope.columnVec[i]? = some (entity, attr.name)) :
    scope.columnType i = some attr.type := by
  have hfind : attributes.find? (·.name = attr.name) = some attr := by
    cases hfind : attributes.find? (·.name = attr.name) with
    | none => simpa using List.find?_eq_none.mp hfind attr hattr
    | some attr' =>
      have hname := List.find?_some hfind
      simp only [decide_eq_true_eq] at hname
      rw [List.inj_on_of_nodup_map (attributesMap_nodup hattributes)
        (List.mem_of_find?_eq_some hfind) hattr hname]
  simp only [columnType, hget, hattributes, hfind, Option.bind_eq_bind, Option.bind_some]

/-- Each column has its value in the rows. -/
theorem Sound.valueOf_rowOf (h : scope.Sound) {rows : TableEntity → List Data}
    (hget : scope.columnVec[i]? = some (entity, column))
    (hrow : rows entity = scope.rowOf value entity) : scope.valueOf rows i = value i := by
  obtain ⟨-, k, hidx⟩ := h.columnVec entity column (List.mem_of_getElem? hget)
  obtain ⟨attributes, hattributes, hfind⟩ := columnIdx_eq_ok.mp hidx
  obtain ⟨attr, hattr, hname⟩ := findIdx?_name hfind
  simp only [Scope.valueOf, hget, columnValue, hidx, hrow, rowOf, hattributes]
  rw [List.getD_eq_getElem?_getD, List.getElem?_map, hattr, Option.map_some, Option.getD_some,
    hname, h.number_eq hget]

/-- The columns of an entity have numbers, with the types of the schema. -/
theorem Sound.columnType_number (h : scope.Sound) (hentity : entity ∈ scope.entities)
    {attributes : List Attribute} (hattributes : attributesMap entity.table = some attributes)
    {attr : Attribute} (hattr : attr ∈ attributes) :
    scope.columnType (scope.number entity attr.name) = some attr.type := by
  obtain ⟨attributes', first, hnumbers⟩ := h.numbers entity hentity
  obtain rfl := Option.some.inj (hnumbers.schema.symm.trans hattributes)
  obtain ⟨j, hj⟩ := List.mem_iff_getElem?.mp hattr
  have hget := hnumbers.names j attr hj
  rw [h.number_eq hget]
  exact columnType_eq hattributes hattr hget

theorem hasWidth_rowOf {attributes : List Attribute}
    (hattributes : attributesMap entity.table = some attributes) :
    HasWidth attributes (scope.rowOf value entity) := by
  unfold HasWidth rowOf
  rw [hattributes, List.length_map]

theorem forall₂_hasType_rowOf {types : Nat → DataType} (hvalue : ∀ k, (value k).HasType (types k))
    {attributes : List Attribute} (hattributes : attributesMap entity.table = some attributes)
    (htypes : ∀ attr ∈ attributes, types (scope.number entity attr.name) = attr.type) :
    List.Forall₂ Data.HasType (scope.rowOf value entity) (attributes.map Attribute.type) := by
  unfold rowOf
  rw [hattributes]
  simp only [List.forall₂_map_left_iff, List.forall₂_map_right_iff]
  apply List.forall₂_same.mpr
  intro attr hattr
  rw [← htypes attr hattr]
  exact hvalue _

end Scope

namespace Pipeline

section Sources

variable {ret : Pipeline} {scope : Scope} {value : Nat → Data} {nodeIdx : Nat}

/-- The table of each input has the one row of its entity. -/
def tablesOf (ret : Pipeline) (scope : Scope) (value : Nat → Data) (inputId : Nat) :
    List (List Data) :=
  match ret.inputs[inputId]? with
  | some (entity, _) => [scope.rowOf value entity]
  | none => []

/-- The one row of each table below a node. -/
def sourcesOf (ret : Pipeline) (scope : Scope) (value : Nat → Data) (nodeIdx : Nat) :
    List (Nat × List Data) :=
  (ret.inputsOf nodeIdx).flatMap fun inputId =>
    (ret.tablesOf scope value inputId).map fun row => (inputId, row)

theorem map_fst_sourcesOf (hvalid : ret.Valid) :
    (ret.sourcesOf scope value nodeIdx).map Prod.fst = ret.inputsOf nodeIdx := by
  have hone : ∀ inputId ∈ ret.inputsOf nodeIdx,
      ((ret.tablesOf scope value inputId).map fun row => (inputId, row)).map Prod.fst =
        [inputId] := fun inputId hmem => by
    unfold tablesOf
    rw [List.getElem?_eq_getElem (hvalid.inputsOf nodeIdx inputId hmem)]
    rfl
  unfold sourcesOf
  rw [List.map_flatMap, List.flatMap_congr hone, List.flatMap_singleton']

theorem mem_tables_of_mem_sourcesOf :
    ∀ source ∈ ret.sourcesOf scope value nodeIdx, source.2 ∈ ret.tablesOf scope value source.1 := by
  intro source hsource
  obtain ⟨inputId, -, hsource⟩ := List.mem_flatMap.mp hsource
  obtain ⟨row, hrow, rfl⟩ := List.mem_map.mp hsource
  exact hrow

theorem rowsOf_sourcesOf (hvalid : ret.Valid) {entity : TableEntity}
    (hentity : entity ∈ ret.entitiesOf nodeIdx) :
    ret.rowsOf (ret.sourcesOf scope value nodeIdx) entity = scope.rowOf value entity := by
  obtain ⟨inputId, hmem, hinput⟩ := List.mem_filterMap.mp hentity
  have hmem : inputId ∈ (ret.sourcesOf scope value nodeIdx).map Prod.fst := by
    rwa [map_fst_sourcesOf hvalid]
  obtain ⟨source, hsource, rfl⟩ := List.mem_map.mp hmem
  unfold rowsOf
  cases hfind : (ret.sourcesOf scope value nodeIdx).find?
      fun source => ret.inputs[source.1]?.map Prod.fst = some entity with
  | none => simpa [hinput] using List.find?_eq_none.mp hfind source hsource
  | some found =>
    have hfound := List.find?_some hfind
    have hrow := mem_tables_of_mem_sourcesOf found (List.mem_of_find?_eq_some hfind)
    simp only [decide_eq_true_eq, Option.map_eq_some_iff] at hfound
    obtain ⟨⟨entity', filter⟩, hget, rfl⟩ := hfound
    simpa [tablesOf, hget] using hrow

end Sources

end Pipeline

/-! ## Classes of the joins -/

/-- The number of classes that the equalities of a query make of its columns. -/
def ParsedSQL.classCount (sql : ParsedSQL) : Nat :=
  (roots (Finset.range sql.scope.columnVec.length) (uniteAll id sql.united)).card

/-- A plan of a query that scans each of its tables once. -/
structure PlanOf (query : Query) (sql : ParsedSQL) (ret : Pipeline) (root : Nat) : Prop where
  sound : sql.Sound query
  valid : ret.Valid
  nodes : ret.NodesOk sql 0
  root_lt : root < ret.nodes.length
  entities : (ret.entitiesOf root).Perm sql.scope.entities
  inputs : ∀ input ∈ ret.inputs, input.1 ∈ sql.scope.entities

/-- The numbers of the columns that the joins below a node compare. -/
def Pipeline.joinPairs (ret : Pipeline) (scope : Scope) (nodeIdx : Nat) : List (Nat × Nat) :=
  (ret.edgesOf nodeIdx).map fun edge =>
    (scope.number edge.1.entity edge.1.column, scope.number edge.2.entity edge.2.column)

section PlanOf

variable {query : Query} {sql : ParsedSQL} {ret : Pipeline} {root : Nat}
  (h : PlanOf query sql ret root)
include h

theorem PlanOf.scopeSound : sql.scope.Sound := fromClause_sound h.sound.scope

theorem PlanOf.nodup : (ret.entitiesOf root).Nodup :=
  h.entities.nodup_iff.mpr h.scopeSound.nodup

theorem PlanOf.length : (ret.entitiesOf root).length = query.fromTable.length := by
  rw [h.entities.length_eq, fromClause_length h.sound.scope]

/-- A column of an edge of the join graph has the number that the edge comes from. -/
theorem PlanOf.graph {left right : TableEntity} {columns : String × String}
    (hedge : sql.joinGraph (left, right) = some columns) :
    sql.scope.columnVec[sql.scope.number left columns.1]? = some (left, columns.1) ∧
      sql.scope.columnVec[sql.scope.number right columns.2]? = some (right, columns.2) ∧
      uniteAll id sql.united (sql.scope.number left columns.1) =
        uniteAll id sql.united (sql.scope.number right columns.2) := by
  obtain ⟨i, j, hi, hj, hrep⟩ := h.sound.graph left right columns hedge
  rw [h.scopeSound.number_eq hi, h.scopeSound.number_eq hj]
  exact ⟨hi, hj, hrep⟩

/-- An edge of the plan is between two columns of one class. -/
theorem PlanOf.edge {edge : OutputColumn × OutputColumn} (hedge : edge ∈ ret.edgesOf root) :
    sql.scope.columnVec[sql.scope.number edge.1.entity edge.1.column]? =
        some (edge.1.entity, edge.1.column) ∧
      sql.scope.columnVec[sql.scope.number edge.2.entity edge.2.column]? =
        some (edge.2.entity, edge.2.column) ∧
      uniteAll id sql.united (sql.scope.number edge.1.entity edge.1.column) =
        uniteAll id sql.united (sql.scope.number edge.2.entity edge.2.column) := by
  obtain ⟨-, -, hgraph⟩ := h.nodes.edges h.valid root h.root_lt edge hedge
  exact h.graph hgraph

theorem PlanOf.joinPairs {pair : Nat × Nat} (hpair : pair ∈ ret.joinPairs sql.scope root) :
    pair.1 < sql.scope.columnVec.length ∧ pair.2 < sql.scope.columnVec.length ∧
      uniteAll id sql.united pair.1 = uniteAll id sql.united pair.2 := by
  obtain ⟨edge, hedge, rfl⟩ := List.mem_map.mp hpair
  obtain ⟨hl, hr, hrep⟩ := h.edge hedge
  exact ⟨(List.getElem?_eq_some_iff.mp hl).1, (List.getElem?_eq_some_iff.mp hr).1, hrep⟩

/-- The classes of the joins are inside those of the query. -/
theorem PlanOf.finer {x y : Nat} (hxy : uniteAll id (ret.joinPairs sql.scope root) x =
    uniteAll id (ret.joinPairs sql.scope root) y) :
    uniteAll id sql.united x = uniteAll id sql.united y := by
  have hR : Equivalence fun x y => uniteAll id sql.united x = uniteAll id sql.united y :=
    eq_equivalence.comap (uniteAll id sql.united)
  have hle := uniteAll_le hR (fun _ _ => congrArg _)
    (fun _ hpair => (h.joinPairs hpair).2.2) hxy
  exact hle

/-- Each join but none more takes a class away. -/
theorem PlanOf.card_joinPairs : (roots (Finset.range sql.scope.columnVec.length)
      (uniteAll id (ret.joinPairs sql.scope root))).card + query.fromTable.length =
    sql.scope.columnVec.length + 1 := by
  have htree : JoinTree (fun i => sql.scope.columnVec[i]?.map Prod.fst)
      ((ret.entitiesOf root).map some) (ret.joinPairs sql.scope root) := by
    refine h.nodes.joinTree h.valid _ (fun col => sql.scope.number col.entity col.column)
      (fun left right columns hedge t t' => ?_) root h.root_lt
    obtain ⟨hl, hr, -⟩ := h.graph hedge
    simp only [hl, hr, Option.map_some, and_self]
  have hnodup : ((ret.entitiesOf root).map some).Nodup :=
    h.nodup.map (Option.some_injective _)
  have hpairs : ∀ pair ∈ ret.joinPairs sql.scope root,
      pair.1 ∈ Finset.range sql.scope.columnVec.length ∧
        pair.2 ∈ Finset.range sql.scope.columnVec.length := fun pair hpair => by
    obtain ⟨hl, hr, -⟩ := h.joinPairs hpair
    exact ⟨Finset.mem_range.mpr hl, Finset.mem_range.mpr hr⟩
  have hid : Idempotent (id : Nat → Nat) := fun _ => rfl
  have hcard := (htree.card_roots hnodup hpairs hid (fun _ hx => hx) (fun _ _ => rfl)
    (fun _ hx => hx)).1
  rwa [roots_id, Finset.card_range, List.length_map, h.length] at hcard

end PlanOf

/-! ## Enforcing the classes -/

/-- In every row of the plan on tables with fitting rows, any two columns of one class are equal and
not NULL. -/
def Enforces (sql : ParsedSQL) (ret : Pipeline) (root : Nat)
    (RowFits : List Attribute → List Data → Prop) : Prop :=
  ∀ tables, ret.TablesFit RowFits tables → ∀ out ∈ ret.evalRows joinKey tables root,
    ∀ i j, i ≠ j → sql.joinUnion.Same i j →
      (sql.scope.valueOf (ret.rowsOf out.2) i).equates (sql.scope.valueOf (ret.rowsOf out.2) j) =
        true

theorem Data.equates_iff {a b : Data} : a.equates b = true ↔ a ≠ .null ∧ a = b := by
  simp [Data.equates]

/-- Being the same column, or having equal values that are not NULL. -/
theorem equivalence_equates (value : Nat → Data) :
    Equivalence fun x y => x = y ∨ (value x).equates (value y) = true := by
  simp only [Data.equates_iff]
  refine ⟨fun _ => .inl rfl, ?_, ?_⟩
  · rintro x y (rfl | ⟨hnull, heq⟩)
    · exact .inl rfl
    · exact .inr ⟨heq ▸ hnull, heq.symm⟩
  · rintro x y z (rfl | ⟨hnull, heq⟩) hyz
    · exact hyz
    · rcases hyz with rfl | ⟨-, heq'⟩
      · exact .inr ⟨hnull, heq⟩
      · exact .inr ⟨hnull, heq.trans heq'⟩

section Enforces

variable {query : Query} {sql : ParsedSQL} {ret : Pipeline} {root : Nat}
  (h : PlanOf query sql ret root)
include h

theorem PlanOf.same_iff {i j : Nat} : sql.joinUnion.Same i j ↔
    i < sql.scope.columnVec.length ∧ j < sql.scope.columnVec.length ∧
      uniteAll id sql.united i = uniteAll id sql.united j := by
  obtain ⟨depth, hrep⟩ := h.sound.classes
  rw [← h.sound.length]
  constructor
  · intro hsame
    obtain ⟨result, hi, hj⟩ := hsame
    have hlt : ∀ x, (sql.joinUnion.find x).map Prod.fst = .ok result →
        x < sql.joinUnion.pa.length := fun x hx => by
      cases hfind : sql.joinUnion.find x with
      | error e => simp [hfind, Except.map] at hx
      | ok found => exact DSU.lt_of_find hfind
    exact ⟨hlt i hi, hlt j hj, (hrep.same_iff (hlt i hi) (hlt j hj)).mp ⟨result, hi, hj⟩⟩
  · rintro ⟨hi, hj, heq⟩
    exact (hrep.same_iff hi hj).mpr heq

/-- The number of classes decides whether those of the query are those of the joins. -/
theorem PlanOf.classCount_iff :
    sql.classCount + query.fromTable.length = sql.scope.columnVec.length + 1 ↔
      ∀ i < sql.scope.columnVec.length, ∀ j < sql.scope.columnVec.length,
        uniteAll id sql.united i = uniteAll id sql.united j →
          uniteAll id (ret.joinPairs sql.scope root) i =
            uniteAll id (ret.joinPairs sql.scope root) j := by
  have hid : Idempotent (id : Nat → Nat) := fun _ => rfl
  have hinside : ∀ pairs : List (Nat × Nat), (∀ pair ∈ pairs,
      pair.2 ∈ Finset.range sql.scope.columnVec.length) →
      ∀ x ∈ Finset.range sql.scope.columnVec.length,
        uniteAll id pairs x ∈ Finset.range sql.scope.columnVec.length :=
    fun pairs hpairs x hx => uniteAll_mem_of_mem (fun _ hx => hx) hpairs hx
  have hunited := hinside sql.united fun pair hpair =>
    Finset.mem_range.mpr (h.sound.united pair hpair).2
  have hjoins := hinside (ret.joinPairs sql.scope root) fun pair hpair =>
    Finset.mem_range.mpr (h.joinPairs hpair).2.1
  have hcard := h.card_joinPairs
  have hle : (roots (Finset.range sql.scope.columnVec.length) (uniteAll id sql.united)).card ≤
      (roots (Finset.range sql.scope.columnVec.length)
        (uniteAll id (ret.joinPairs sql.scope root))).card :=
    card_roots_le (hid.uniteAll _) hjoins fun x _ y _ hxy => h.finer hxy
  unfold ParsedSQL.classCount
  constructor
  · intro hcount i hi j hj hij
    exact eq_of_card_roots_le (hid.uniteAll _) (hid.uniteAll _) hjoins hunited
      (fun x _ y _ hxy => h.finer hxy) (by omega) (Finset.mem_range.mpr hi)
      (Finset.mem_range.mpr hj) hij
  · intro hcoarser
    have hge : (roots (Finset.range sql.scope.columnVec.length)
          (uniteAll id (ret.joinPairs sql.scope root))).card ≤
        (roots (Finset.range sql.scope.columnVec.length) (uniteAll id sql.united)).card :=
      card_roots_le (hid.uniteAll sql.united) hunited fun x hx y hy hxy =>
        hcoarser x (Finset.mem_range.mp hx) y (Finset.mem_range.mp hy) hxy
    omega

/-- A column of an edge has its value in the rows of the tables. -/
theorem PlanOf.edgeHolds_iff {sources : List (Nat × List Data)}
    {edge : OutputColumn × OutputColumn} (hedge : edge ∈ ret.edgesOf root) :
    ret.EdgeHolds sources edge ↔
      (sql.scope.valueOf (ret.rowsOf sources)
        (sql.scope.number edge.1.entity edge.1.column)).equates
      (sql.scope.valueOf (ret.rowsOf sources)
        (sql.scope.number edge.2.entity edge.2.column)) = true := by
  obtain ⟨hl, hr, -⟩ := h.edge hedge
  simp only [Pipeline.EdgeHolds, OutputColumn.valueIn, Scope.valueOf, hl, hr]

theorem PlanOf.enforces {RowFits : List Attribute → List Data → Prop}
    (hwidth : ∀ attributes row, RowFits attributes row → HasWidth attributes row)
    (hcount : sql.classCount + query.fromTable.length = sql.scope.columnVec.length + 1) :
    Enforces sql ret root RowFits := by
  intro tables hfit out hout i j hne hsame
  obtain ⟨hi, hj, hij⟩ := h.same_iff.mp hsame
  have hfit : ret.TablesFit HasWidth tables := fun inputId entity filter hget => by
    obtain ⟨attributes, hattributes, hrows⟩ := hfit inputId entity filter hget
    exact ⟨attributes, hattributes, fun row hrow => hwidth _ _ (hrows row hrow)⟩
  have hcombines := (h.nodes.mem_evalRows h.valid hfit root h.root_lt h.nodup out).mp hout
  have hpairs : ∀ pair ∈ ret.joinPairs sql.scope root, pair.1 = pair.2 ∨
      (sql.scope.valueOf (ret.rowsOf out.2) pair.1).equates
        (sql.scope.valueOf (ret.rowsOf out.2) pair.2) = true := fun pair hpair => by
    obtain ⟨edge, hedge, rfl⟩ := List.mem_map.mp hpair
    exact .inr ((h.edgeHolds_iff hedge).mp (hcombines.edges edge hedge))
  have hvalue := uniteAll_le (equivalence_equates (sql.scope.valueOf (ret.rowsOf out.2)))
    (fun _ _ heq => .inl heq) hpairs (h.classCount_iff.mp hcount i hi j hj hij)
  exact hvalue.resolve_left hne

theorem PlanOf.tablesFit {RowFits : List Attribute → List Data → Prop} {value : Nat → Data}
    (hrow : ∀ entity ∈ sql.scope.entities, ∀ attributes,
      attributesMap entity.table = some attributes →
        RowFits attributes (sql.scope.rowOf value entity)) :
    ret.TablesFit RowFits (ret.tablesOf sql.scope value) := by
  intro inputId entity filter hget
  have hentity := h.inputs (entity, filter) (List.mem_of_getElem? hget)
  obtain ⟨attributes, first, hnumbers⟩ := h.scopeSound.numbers entity hentity
  refine ⟨attributes, hnumbers.schema, fun row hmem => ?_⟩
  simp only [Pipeline.tablesOf, hget, List.mem_singleton] at hmem
  rw [hmem]
  exact hrow entity hentity attributes hnumbers.schema

/-- Values that are equal along the joins occur in a row of the plan. -/
theorem PlanOf.exists_row {value : Nat → Data} (hvalue : ∀ pair ∈ ret.joinPairs sql.scope root,
      (value pair.1).equates (value pair.2) = true) :
    ∃ out ∈ ret.evalRows joinKey (ret.tablesOf sql.scope value) root,
      ∀ i < sql.scope.columnVec.length, sql.scope.valueOf (ret.rowsOf out.2) i = value i := by
  have hvalueOf : ∀ i < sql.scope.columnVec.length,
      sql.scope.valueOf (ret.rowsOf (ret.sourcesOf sql.scope value root)) i = value i := by
    intro i hi
    obtain ⟨⟨entity, column⟩, hget⟩ : ∃ col, sql.scope.columnVec[i]? = some col :=
      ⟨_, List.getElem?_eq_getElem hi⟩
    have hentity := (h.scopeSound.columnVec entity column (List.mem_of_getElem? hget)).1
    exact h.scopeSound.valueOf_rowOf hget
      (Pipeline.rowsOf_sourcesOf h.valid (h.entities.mem_iff.mpr hentity))
  have hfit : ret.TablesFit HasWidth (ret.tablesOf sql.scope value) :=
    h.tablesFit fun _ _ _ hattributes => Scope.hasWidth_rowOf hattributes
  refine ⟨((ret.columnsOf root).map (OutputColumn.valueIn (ret.rowsOf
    (ret.sourcesOf sql.scope value root))), ret.sourcesOf sql.scope value root),
    (h.nodes.mem_evalRows h.valid hfit root h.root_lt h.nodup _).mpr ⟨?_, ?_, ?_, rfl⟩, hvalueOf⟩
  · exact Pipeline.map_fst_sourcesOf h.valid
  · exact Pipeline.mem_tables_of_mem_sourcesOf
  · intro edge hedge
    have hpair := List.mem_map_of_mem (f := fun edge : OutputColumn × OutputColumn =>
      (sql.scope.number edge.1.entity edge.1.column, sql.scope.number edge.2.entity edge.2.column))
      hedge
    obtain ⟨hl, hr, -⟩ := h.joinPairs hpair
    rw [h.edgeHolds_iff hedge, hvalueOf _ hl, hvalueOf _ hr]
    exact hvalue _ hpair

end Enforces

/-! ## Tables that tell two classes apart -/

/-- Two values of a type. -/
def typedValue : DataType → Bool → Data
  | .int32, bit => .int32 (if bit then 1 else 0)
  | .int64, bit => .int64 (if bit then 1 else 0)
  | .fp64, bit => .fp64 (if bit then 1 else 0)
  | .varchar, bit => .varchar (if bit then [1] else [])

theorem typedValue_hasType (type : DataType) (bit : Bool) : (typedValue type bit).HasType type := by
  cases type <;> rfl

theorem typedValue_ne_null (type : DataType) (bit : Bool) : typedValue type bit ≠ .null := by
  cases type <;> nofun

theorem typedValue_ne (type type' : DataType) : typedValue type true ≠ typedValue type' false := by
  cases type <;> cases type' <;> decide

/-- A row has a value of its type, or NULL, for each attribute. -/
def HasTypes (attributes : List Attribute) (row : List Data) : Prop :=
  List.Forall₂ Data.HasType row (attributes.map Attribute.type)

/-- Columns that are equated have the same type. -/
def ParsedSQL.SameTypes (sql : ParsedSQL) : Prop :=
  ∀ pair ∈ sql.united, sql.scope.columnType pair.1 = sql.scope.columnType pair.2

section

variable {query : Query} {sql : ParsedSQL} {ret : Pipeline} {root : Nat}
  (h : PlanOf query sql ret root)
include h

/-- If the joins leave two columns of a class apart, then tables with two values show it. -/
theorem PlanOf.count_of_enforces {RowFits : List Attribute → List Data → Prop}
    (henforces : Enforces sql ret root RowFits) (types : Nat → DataType)
    (htypes : ∀ pair ∈ ret.joinPairs sql.scope root, types pair.1 = types pair.2)
    (hfit : ∀ value : Nat → Data, (∀ k, (value k).HasType (types k)) →
      ∀ entity ∈ sql.scope.entities, ∀ attributes, attributesMap entity.table = some attributes →
        RowFits attributes (sql.scope.rowOf value entity)) :
    sql.classCount + query.fromTable.length = sql.scope.columnVec.length + 1 := by
  apply h.classCount_iff.mpr
  intro i hi j hj hij
  by_contra hne
  obtain ⟨value, hvalue⟩ : ∃ value : Nat → Data, ∀ k, value k = typedValue (types k)
      (uniteAll id (ret.joinPairs sql.scope root) k =
        uniteAll id (ret.joinPairs sql.scope root) i) := ⟨_, fun _ => rfl⟩
  have hpairs : ∀ pair ∈ ret.joinPairs sql.scope root,
      (value pair.1).equates (value pair.2) = true := fun pair hpair => by
    rw [Data.equates_iff, hvalue, hvalue, htypes pair hpair, uniteAll_mem hpair]
    exact ⟨typedValue_ne_null _ _, rfl⟩
  obtain ⟨out, hout, hvalues⟩ := h.exists_row hpairs
  have htables := h.tablesFit (hfit value fun k => hvalue k ▸ typedValue_hasType _ _)
  have heq := henforces _ htables out hout i j (fun heq => hne (congrArg _ heq))
    (h.same_iff.mpr ⟨hi, hj, hij⟩)
  rw [hvalues i hi, hvalues j hj, Data.equates_iff, hvalue i, hvalue j] at heq
  simp only [decide_true, Ne.symm hne, decide_false] at heq
  exact typedValue_ne _ _ heq.2

theorem PlanOf.enforces_width_iff : Enforces sql ret root HasWidth ↔
    sql.classCount + query.fromTable.length = sql.scope.columnVec.length + 1 := by
  refine ⟨fun henforces => ?_, h.enforces fun _ _ hwidth => hwidth⟩
  exact h.count_of_enforces henforces (fun _ => .int32) (fun _ _ => rfl)
    fun value _ entity _ attributes hattributes => Scope.hasWidth_rowOf hattributes

theorem PlanOf.enforces_types_iff (htypes : sql.SameTypes) : Enforces sql ret root HasTypes ↔
    sql.classCount + query.fromTable.length = sql.scope.columnVec.length + 1 := by
  constructor
  · intro henforces
    have hR : Equivalence fun x y => sql.scope.columnType x = sql.scope.columnType y :=
      eq_equivalence.comap sql.scope.columnType
    have hsame : ∀ pair ∈ ret.joinPairs sql.scope root,
        sql.scope.columnType pair.1 = sql.scope.columnType pair.2 := fun pair hpair => by
      have hle := uniteAll_le hR (fun _ _ => congrArg _) htypes (h.joinPairs hpair).2.2
      exact hle
    refine h.count_of_enforces henforces (fun k => (sql.scope.columnType k).getD .int32)
      (fun pair hpair => congrArg (·.getD .int32) (hsame pair hpair))
      fun value hvalue entity hentity attributes hattributes => ?_
    apply Scope.forall₂_hasType_rowOf hvalue hattributes
    intro attr hattr
    rw [h.scopeSound.columnType_number hentity hattributes hattr]
    rfl
  · apply h.enforces
    intro attributes row hrow
    have hlen := hrow.length_eq
    rwa [List.length_map] at hlen

end

/-! ## Generated plans -/

theorem loadJoinPipeline_planOf {columnToTables : String → Option (List String)} {env : ParseEnv}
    {query : Query} {sql : ParsedSQL} {order : IterationOrder Edge} {plan : PlanTree}
    {ret : Pipeline} {root : Nat} {σ : Type} {load : Loader σ} {state state' : σ}
    (hparse : parseSQL columnToTables env query = .ok sql)
    (hload : loadJoinPipeline load sql order plan state = .ok ((ret, root), state'))
    (honce : (plan.entities sql.scope).Perm sql.scope.entities) : PlanOf query sql ret root := by
  obtain ⟨columns, hspec⟩ := loadJoinPipeline_spec hload
  have hroot : root + 1 = ret.nodes.length := hspec.root
  refine ⟨parseSQL_sound hparse, hspec.valid, hspec.nodes, by omega, ?_, fun input hinput => ?_⟩
  · have hentities := hspec.entitiesOf
    simp only at hentities
    rw [hentities]
    exact honce
  · have hinputs : ret.inputs = plan.inputs sql := hspec.inputs
    obtain ⟨entity, hentity, rfl⟩ := List.mem_map.mp (hinputs ▸ hinput)
    exact honce.mem_iff.mp hentity

/-- A plan that scans each table once enforces all classes of equal columns exactly if these take as
many columns together as there are joins. This is so of tables with any values, and of tables with
the types of the schema where only columns of one type are equated. -/
theorem enforces_iff {columnToTables : String → Option (List String)} {env : ParseEnv}
    {query : Query} {sql : ParsedSQL} {order : IterationOrder Edge} {plan : PlanTree}
    {ret : Pipeline} {root : Nat} {σ : Type} {load : Loader σ} {state state' : σ}
    (hparse : parseSQL columnToTables env query = .ok sql)
    (hload : loadJoinPipeline load sql order plan state = .ok ((ret, root), state'))
    (honce : (plan.entities sql.scope).Perm sql.scope.entities) :
    (Enforces sql ret root HasWidth ↔
      sql.classCount + query.fromTable.length = sql.scope.columnVec.length + 1) ∧
    (sql.SameTypes → (Enforces sql ret root HasTypes ↔
      sql.classCount + query.fromTable.length = sql.scope.columnVec.length + 1)) := by
  have h := loadJoinPipeline_planOf hparse hload honce
  exact ⟨h.enforces_width_iff, h.enforces_types_iff⟩

/-- The plan of `k.id = l.id` joins the two tables on it. -/
theorem enforces_iff_keywordLink : ∃ sql ret root,
    parseSQL (fun _ => none) parseInOrder (keywordLink keywordId) = .ok sql ∧
      loadJoinPipeline planOnly sql (inOrder Edge) linkKeywordPlan () = .ok ((ret, root), ()) ∧
      Enforces sql ret root HasWidth := by
  have hall : ∀ sql ret root,
      parseSQL (fun _ => none) parseInOrder (keywordLink keywordId) = .ok sql →
      loadJoinPipeline planOnly sql (inOrder Edge) linkKeywordPlan () = .ok ((ret, root), ()) →
      (linkKeywordPlan.entities sql.scope).Perm sql.scope.entities →
      sql.classCount + 2 = sql.scope.columnVec.length + 1 →
      Enforces sql ret root HasWidth := fun _ _ _ hparse hload honce hcount =>
    (enforces_iff hparse hload honce).1.mpr hcount
  exact ⟨_, _, _, rfl, rfl, hall _ _ _ rfl rfl (by decide) (by decide)⟩

/-- `k.keyword = k.phonetic_code` -/
def keywordPhonetic : Expr :=
  .compare .equals (.columnRef ⟨some "k", "keyword"⟩) (.columnRef ⟨some "k", "phonetic_code"⟩)

/-- No join of `k.id = l.id AND k.keyword = k.phonetic_code` compares two columns of one table. -/
theorem not_enforces_keywordPhonetic : ∃ sql ret root,
    parseSQL (fun _ => none) parseInOrder (keywordLink (.and keywordId keywordPhonetic)) = .ok sql ∧
      loadJoinPipeline planOnly sql (inOrder Edge) linkKeywordPlan () = .ok ((ret, root), ()) ∧
      (linkKeywordPlan.entities sql.scope).Perm sql.scope.entities ∧
      ¬ Enforces sql ret root HasTypes := by
  have hall : ∀ sql ret root,
      parseSQL (fun _ => none) parseInOrder (keywordLink (.and keywordId keywordPhonetic)) =
        .ok sql →
      loadJoinPipeline planOnly sql (inOrder Edge) linkKeywordPlan () = .ok ((ret, root), ()) →
      (linkKeywordPlan.entities sql.scope).Perm sql.scope.entities →
      (∀ pair ∈ sql.united, sql.scope.columnType pair.1 = sql.scope.columnType pair.2) →
      sql.classCount + 2 ≠ sql.scope.columnVec.length + 1 →
      ¬ Enforces sql ret root HasTypes := fun _ _ _ hparse hload honce htypes hcount henforces =>
    hcount (((loadJoinPipeline_planOf hparse hload honce).enforces_types_iff htypes).mp henforces)
  exact ⟨_, _, _, rfl, rfl, by decide, hall _ _ _ rfl rfl (by decide) (by decide) (by decide)⟩

end HashJoin
