import HashJoin.Plan

/-!
# The tables of a query

The schema, and what the `FROM` list of a query fills: how often each table occurs, the aliases, and
a number for each column of each occurrence. A `TableEntity` is one occurrence of a table.
-/

namespace HashJoin

/-! ## The schema -/

structure Attribute where
  type : DataType
  name : String
  deriving DecidableEq

/-- The entries of `attributes_map`. -/
def schema : List (String × List Attribute) := [
  ("aka_name", [⟨.int32, "id"⟩, ⟨.int32, "person_id"⟩, ⟨.varchar, "name"⟩,
    ⟨.varchar, "imdb_index"⟩, ⟨.varchar, "name_pcode_cf"⟩, ⟨.varchar, "name_pcode_nf"⟩,
    ⟨.varchar, "surname_pcode"⟩, ⟨.varchar, "md5sum"⟩]),
  ("aka_title", [⟨.int32, "id"⟩, ⟨.int32, "movie_id"⟩, ⟨.varchar, "title"⟩,
    ⟨.varchar, "imdb_index"⟩, ⟨.int32, "kind_id"⟩, ⟨.int32, "production_year"⟩,
    ⟨.varchar, "phonetic_code"⟩, ⟨.int32, "episode_of_id"⟩, ⟨.int32, "season_nr"⟩,
    ⟨.int32, "episode_nr"⟩, ⟨.varchar, "note"⟩, ⟨.varchar, "md5sum"⟩]),
  ("cast_info", [⟨.int32, "id"⟩, ⟨.int32, "person_id"⟩, ⟨.int32, "movie_id"⟩,
    ⟨.int32, "person_role_id"⟩, ⟨.varchar, "note"⟩, ⟨.int32, "nr_order"⟩, ⟨.int32, "role_id"⟩]),
  ("char_name", [⟨.int32, "id"⟩, ⟨.varchar, "name"⟩, ⟨.varchar, "imdb_index"⟩,
    ⟨.int32, "imdb_id"⟩, ⟨.varchar, "name_pcode_nf"⟩, ⟨.varchar, "surname_pcode"⟩,
    ⟨.varchar, "md5sum"⟩]),
  ("comp_cast_type", [⟨.int32, "id"⟩, ⟨.varchar, "kind"⟩]),
  ("company_name", [⟨.int32, "id"⟩, ⟨.varchar, "name"⟩, ⟨.varchar, "country_code"⟩,
    ⟨.int32, "imdb_id"⟩, ⟨.varchar, "name_pcode_nf"⟩, ⟨.varchar, "name_pcode_sf"⟩,
    ⟨.varchar, "md5sum"⟩]),
  ("company_type", [⟨.int32, "id"⟩, ⟨.varchar, "kind"⟩]),
  ("complete_cast", [⟨.int32, "id"⟩, ⟨.int32, "movie_id"⟩, ⟨.int32, "subject_id"⟩,
    ⟨.int32, "status_id"⟩]),
  ("info_type", [⟨.int32, "id"⟩, ⟨.varchar, "info"⟩]),
  ("keyword", [⟨.int32, "id"⟩, ⟨.varchar, "keyword"⟩, ⟨.varchar, "phonetic_code"⟩]),
  ("kind_type", [⟨.int32, "id"⟩, ⟨.varchar, "kind"⟩]),
  ("link_type", [⟨.int32, "id"⟩, ⟨.varchar, "link"⟩]),
  ("movie_companies", [⟨.int32, "id"⟩, ⟨.int32, "movie_id"⟩, ⟨.int32, "company_id"⟩,
    ⟨.int32, "company_type_id"⟩, ⟨.varchar, "note"⟩]),
  ("movie_info_idx", [⟨.int32, "id"⟩, ⟨.int32, "movie_id"⟩, ⟨.int32, "info_type_id"⟩,
    ⟨.varchar, "info"⟩, ⟨.varchar, "note"⟩]),
  ("movie_keyword", [⟨.int32, "id"⟩, ⟨.int32, "movie_id"⟩, ⟨.int32, "keyword_id"⟩]),
  ("movie_link", [⟨.int32, "id"⟩, ⟨.int32, "movie_id"⟩, ⟨.int32, "linked_movie_id"⟩,
    ⟨.int32, "link_type_id"⟩]),
  ("name", [⟨.int32, "id"⟩, ⟨.varchar, "name"⟩, ⟨.varchar, "imdb_index"⟩, ⟨.int32, "imdb_id"⟩,
    ⟨.varchar, "gender"⟩, ⟨.varchar, "name_pcode_cf"⟩, ⟨.varchar, "name_pcode_nf"⟩,
    ⟨.varchar, "surname_pcode"⟩, ⟨.varchar, "md5sum"⟩]),
  ("role_type", [⟨.int32, "id"⟩, ⟨.varchar, "role"⟩]),
  ("title", [⟨.int32, "id"⟩, ⟨.varchar, "title"⟩, ⟨.varchar, "imdb_index"⟩, ⟨.int32, "kind_id"⟩,
    ⟨.int32, "production_year"⟩, ⟨.int32, "imdb_id"⟩, ⟨.varchar, "phonetic_code"⟩,
    ⟨.int32, "episode_of_id"⟩, ⟨.int32, "season_nr"⟩, ⟨.int32, "episode_nr"⟩,
    ⟨.varchar, "series_years"⟩, ⟨.varchar, "md5sum"⟩]),
  ("movie_info", [⟨.int32, "id"⟩, ⟨.int32, "movie_id"⟩, ⟨.int32, "info_type_id"⟩,
    ⟨.varchar, "info"⟩, ⟨.varchar, "note"⟩]),
  ("person_info", [⟨.int32, "id"⟩, ⟨.int32, "person_id"⟩, ⟨.int32, "info_type_id"⟩,
    ⟨.varchar, "info"⟩, ⟨.varchar, "note"⟩])]

/-- `attributes_map`. -/
def attributesMap (table : String) : Option (List Attribute) := schema.lookup table

/-- An entity that was not assigned has an empty name and an indeterminate number. -/
structure TableEntity where
  table : String
  id : Int
  deriving DecidableEq

/-- `column_idx`. -/
def columnIdx (column : String) (entity : TableEntity) : Except String Nat :=
  match attributesMap entity.table with
  | none => .error s!"Cannot find table {entity.table}"
  | some attributes =>
    match attributes.findIdx? (·.name = column) with
    | some idx => .ok idx
    | none => .error s!"Cannot find column {column} in table {entity.table}"

theorem columnIdx_eq_ok {column : String} {entity : TableEntity} {i : Nat} :
    columnIdx column entity = .ok i ↔ ∃ attributes, attributesMap entity.table = some attributes ∧
      attributes.findIdx? (·.name = column) = some i := by
  unfold columnIdx
  cases attributesMap entity.table with
  | none => simp
  | some attributes =>
    cases h : attributes.findIdx? (·.name = column) <;> simp [h]

theorem attributesMap_empty : attributesMap "" = none := by decide

/-- What holds of all tables of the schema holds of the table found. -/
theorem attributesMap_forall {P : List Attribute → Prop} (h : ∀ entry ∈ schema, P entry.2)
    {table : String} {attributes : List Attribute}
    (htable : attributesMap table = some attributes) : P attributes := by
  obtain ⟨l₁, l₂, hschema, -⟩ := List.lookup_eq_some_iff.mp htable
  exact h (table, attributes) (by rw [hschema]; simp)

theorem attributesMap_type {table : String} {attributes : List Attribute}
    (h : attributesMap table = some attributes) :
    ∀ attr ∈ attributes, attr.type = .int32 ∨ attr.type = .varchar :=
  attributesMap_forall
    (P := fun attributes => ∀ attr ∈ attributes, attr.type = .int32 ∨ attr.type = .varchar)
    (by decide) h

/-- The columns of a table have different names. -/
theorem attributesMap_nodup {table : String} {attributes : List Attribute}
    (h : attributesMap table = some attributes) : (attributes.map Attribute.name).Nodup :=
  attributesMap_forall (P := fun attributes => (attributes.map Attribute.name).Nodup) (by decide) h

/-! ## The `FROM` list -/

section

variable {K V : Type} [DecidableEq K]

/-- `emplace` of an `unordered_map`, which leaves a key that is there as it is. -/
def emplace (m : K → Option V) (k : K) (v : V) : K → Option V :=
  if (m k).isSome then m else Function.update m k (some v)

theorem emplace_of_none {m : K → Option V} {k : K} (h : m k = none) (v : V) :
    emplace m k v = Function.update m k (some v) := by
  simp [emplace, h]

theorem emplace_eq_some {m : K → Option V} {k k' : K} {v v' : V}
    (h : emplace m k v k' = some v') : m k' = some v' ∨ m k' = none ∧ k' = k ∧ v' = v := by
  unfold emplace at h
  split at h
  · exact .inl h
  · next hk =>
    by_cases hkk : k' = k
    · subst hkk
      rw [Function.update_self] at h
      exact .inr ⟨by simpa using hk, rfl, (Option.some.inj h).symm⟩
    · exact .inl (by rwa [Function.update_of_ne hkk] at h)

end

/-- The members of `ParsedSQL` that the `FROM` list fills. `entities` are the keys of `column_map`,
and `column_count` is the length of `column_vec`. -/
structure Scope where
  tableCounts : String → Option Int := fun _ => none
  entities : List TableEntity := []
  columnMap : TableEntity → Option (String → Option Nat) := fun _ => none
  columnVec : List (TableEntity × String) := []
  aliasMap : String → Option TableEntity := fun _ => none

namespace Scope

/-- The columns of a table, numbered from `columnCount` on. -/
def numberColumns (columnCount : Nat) (attributes : List Attribute) : String → Option Nat :=
  (attributes.zipIdx columnCount).foldl (fun m (attr, idx) => emplace m attr.name idx) fun _ => none

def addAlias (scope : Scope) (entity : TableEntity) : Option String → String → Option TableEntity
  | some aliasName => emplace scope.aliasMap aliasName entity
  | none => scope.aliasMap

/-- One table of the list, with its alias if it has one. -/
def addTable (scope : Scope) (name : String) (aliasName : Option String) : Except String Scope :=
  let count := (scope.tableCounts name).getD 0 + 1
  let entity : TableEntity := ⟨name, count - 1⟩
  match attributesMap name with
  | none => .error s!"No table: {name} in schema"
  | some attributes =>
    .ok {
      tableCounts := Function.update scope.tableCounts name (some count)
      entities := scope.entities ++ [entity]
      columnMap := emplace scope.columnMap entity (numberColumns scope.columnVec.length attributes)
      columnVec := scope.columnVec ++ attributes.map fun attr => (entity, attr.name)
      aliasMap := scope.addAlias entity aliasName }

end Scope

def fromClause (tables : List (String × Option String)) : Except String Scope :=
  tables.foldlM (fun scope table => scope.addTable table.1 table.2) {}

/-! ## What the `FROM` list fills -/

namespace Scope

theorem foldl_emplace_eq (attributes : List Attribute) (n : Nat) (m : String → Option Nat)
    (column : String) :
    (attributes.zipIdx n).foldl (fun m (attr, idx) => emplace m attr.name idx) m column =
      (m column).or ((attributes.findIdx? (·.name = column)).map (n + ·)) := by
  induction attributes generalizing n m with
  | nil => simp
  | cons attr attributes ih =>
    rw [List.zipIdx_cons, List.foldl_cons, ih, List.findIdx?_cons]
    by_cases hname : attr.name = column
    · cases hm : m column with
      | some idx => simp [emplace, hname, hm]
      | none => simp [emplace, hname, hm]
    · have hm : emplace m attr.name n column = m column := by
        unfold emplace
        split
        · rfl
        · rw [Function.update_of_ne (Ne.symm hname)]
      have hadd : ∀ idx, n + 1 + idx = n + (idx + 1) := fun idx => by omega
      simp [hm, hname, Function.comp_def, hadd]

/-- A column gets the number of the first attribute of its name. -/
theorem numberColumns_eq (columnCount : Nat) (attributes : List Attribute) (column : String) :
    numberColumns columnCount attributes column =
      (attributes.findIdx? (·.name = column)).map (columnCount + ·) := by
  unfold numberColumns
  rw [foldl_emplace_eq]
  rfl

/-- The columns of an entity have consecutive numbers from `first` on. -/
structure Numbers (scope : Scope) (entity : TableEntity) (attributes : List Attribute)
    (first : Nat) : Prop where
  schema : attributesMap entity.table = some attributes
  columns : scope.columnMap entity = some (numberColumns first attributes)
  names : ∀ (j : Nat) (attr : Attribute), attributes[j]? = some attr →
    scope.columnVec[first + j]? = some (entity, attr.name)

/-- What holds of the tables of a query after any part of its `FROM` list. -/
structure Sound (scope : Scope) : Prop where
  nodup : scope.entities.Nodup
  counted : ∀ entity, entity ∈ scope.entities ↔
    ∃ count, scope.tableCounts entity.table = some count ∧ 0 ≤ entity.id ∧ entity.id < count
  positive : ∀ table count, scope.tableCounts table = some count → 0 < count
  columnMap : ∀ entity, (scope.columnMap entity).isSome ↔ entity ∈ scope.entities
  numbers : ∀ entity ∈ scope.entities, ∃ attributes first, scope.Numbers entity attributes first
  columnVec : ∀ entity column, (entity, column) ∈ scope.columnVec → entity ∈ scope.entities ∧
    ∃ i, columnIdx column entity = .ok i
  columnsNodup : scope.columnVec.Nodup
  aliases : ∀ aliasName entity, scope.aliasMap aliasName = some entity → entity ∈ scope.entities

theorem Sound.empty : Sound {} := by
  constructor <;> simp

variable {scope scope' : Scope} {name : String} {aliasName : Option String}

/-- The entity that a table of the list adds. -/
def nextEntity (scope : Scope) (name : String) : TableEntity :=
  ⟨name, (scope.tableCounts name).getD 0⟩

theorem Sound.nextEntity_not_mem (h : scope.Sound) (name : String) :
    scope.nextEntity name ∉ scope.entities := by
  intro hmem
  obtain ⟨count, hcount, -, hlt⟩ := (h.counted _).mp hmem
  have hcount : scope.tableCounts name = some count := hcount
  simp [nextEntity, hcount] at hlt

/-- What one table of the list does. -/
theorem addTable_eq_ok (h : scope.addTable name aliasName = .ok scope') :
    ∃ attributes, attributesMap name = some attributes ∧ scope' = {
      tableCounts :=
        Function.update scope.tableCounts name (some ((scope.tableCounts name).getD 0 + 1))
      entities := scope.entities ++ [scope.nextEntity name]
      columnMap := emplace scope.columnMap (scope.nextEntity name)
        (numberColumns scope.columnVec.length attributes)
      columnVec := scope.columnVec ++ attributes.map fun attr => (scope.nextEntity name, attr.name)
      aliasMap := scope.addAlias (scope.nextEntity name) aliasName } := by
  unfold addTable at h
  cases hattributes : attributesMap name with
  | none => simp [hattributes] at h
  | some attributes =>
    simp only [hattributes, add_sub_cancel_right] at h
    exact ⟨attributes, rfl, (Except.ok.inj h).symm⟩

theorem Sound.counted_next (h : scope.Sound) (name : String) (entity : TableEntity) :
    entity ∈ scope.entities ++ [scope.nextEntity name] ↔
      ∃ count, Function.update scope.tableCounts name
          (some ((scope.tableCounts name).getD 0 + 1)) entity.table = some count ∧
        0 ≤ entity.id ∧ entity.id < count := by
  have hcount : 0 ≤ (scope.tableCounts name).getD 0 := by
    cases hname : scope.tableCounts name with
    | none => simp
    | some count => exact (h.positive name count hname).le
  rw [List.mem_append, h.counted entity, List.mem_singleton]
  by_cases hname : entity.table = name
  · have hnext : entity = scope.nextEntity name ↔
        entity.id = (scope.tableCounts name).getD 0 := by
      obtain ⟨table, id⟩ := entity
      simpa [nextEntity] using fun _ => hname
    rw [hname, Function.update_self, hnext]
    simp only [Option.some.injEq, exists_eq_left']
    cases hn : scope.tableCounts name with
    | none => simp; omega
    | some count =>
      rw [hn, Option.getD_some] at hcount
      simp; omega
  · have hnext : entity ≠ scope.nextEntity name := fun h => hname (h ▸ rfl)
    rw [Function.update_of_ne hname]
    simp [hnext]

theorem Sound.positive_next (h : scope.Sound) (name : String) {table : String} {count : Int}
    (hcount : Function.update scope.tableCounts name
      (some ((scope.tableCounts name).getD 0 + 1)) table = some count) : 0 < count := by
  by_cases htable : table = name
  · subst htable
    rw [Function.update_self] at hcount
    cases hname : scope.tableCounts table with
    | none => simp [hname] at hcount; omega
    | some c =>
      have := h.positive table c hname
      simp [hname] at hcount
      omega
  · rw [Function.update_of_ne htable] at hcount
    exact h.positive table count hcount

/-- The numbers of an entity stay when columns of others come after them. -/
theorem Numbers.append {entity : TableEntity} {attributes : List Attribute} {first : Nat}
    (h : scope.Numbers entity attributes first) {more : List (TableEntity × String)}
    (hmap : scope'.columnMap entity = scope.columnMap entity)
    (hvec : scope'.columnVec = scope.columnVec ++ more) :
    scope'.Numbers entity attributes first := by
  refine ⟨h.schema, hmap.trans h.columns, fun j attr hj => ?_⟩
  have hlt := (List.getElem?_eq_some_iff.mp (h.names j attr hj)).1
  rw [← h.names j attr hj, hvec]
  exact List.getElem?_append_left hlt

/-- An attribute of the schema is a column of each entity of its table. -/
theorem columnIdx_of_mem {attributes : List Attribute}
    (hattributes : attributesMap name = some attributes) {attr : Attribute}
    (hattr : attr ∈ attributes) (id : Int) : ∃ i, columnIdx attr.name ⟨name, id⟩ = .ok i := by
  cases hidx : attributes.findIdx? (·.name = attr.name) with
  | none =>
    rw [List.findIdx?_eq_none_iff] at hidx
    simpa using hidx attr hattr
  | some i => exact ⟨i, columnIdx_eq_ok.mpr ⟨attributes, hattributes, hidx⟩⟩

theorem Sound.addTable (h : scope.Sound) (hadd : scope.addTable name aliasName = .ok scope') :
    scope'.Sound := by
  obtain ⟨attributes, hattributes, rfl⟩ := addTable_eq_ok hadd
  have hnew := h.nextEntity_not_mem name
  have hnone : scope.columnMap (scope.nextEntity name) = none := by
    rw [← Option.not_isSome_iff_eq_none, h.columnMap]
    exact hnew
  refine
    { nodup := ?_
      counted := h.counted_next name
      positive := ?_
      columnMap := ?_
      numbers := ?_
      columnVec := ?_
      columnsNodup := ?_
      aliases := ?_ }
  · exact List.nodup_append.mpr ⟨h.nodup, by simp, by
      simp only [List.mem_singleton]
      rintro a ha b rfl rfl
      exact hnew ha⟩
  · exact fun table count hcount => h.positive_next name hcount
  · intro entity
    simp only [emplace_of_none hnone]
    by_cases hentity : entity = scope.nextEntity name
    · simp [hentity]
    · simp [hentity, h.columnMap entity]
  · intro entity hentity
    rcases List.mem_append.mp hentity with hold | hlast
    · obtain ⟨attrs, first, hnum⟩ := h.numbers entity hold
      have hne : entity ≠ scope.nextEntity name := fun h => hnew (h ▸ hold)
      refine ⟨attrs, first, hnum.append ?_ rfl⟩
      simp only [emplace_of_none hnone]
      exact Function.update_of_ne hne _ _
    · have hlast := List.mem_singleton.mp hlast
      subst hlast
      refine ⟨attributes, scope.columnVec.length, hattributes, ?_, fun j attr hj => ?_⟩
      · simp only [emplace_of_none hnone, Function.update_self]
      · simp only
        rw [List.getElem?_append_right (by omega), Nat.add_sub_cancel_left, List.getElem?_map, hj]
        rfl
  · intro entity column hmem
    rcases List.mem_append.mp hmem with hold | hlast
    · obtain ⟨hentity, hidx⟩ := h.columnVec entity column hold
      exact ⟨List.mem_append_left _ hentity, hidx⟩
    · obtain ⟨attr, hattr, heq⟩ := List.mem_map.mp hlast
      obtain ⟨rfl, rfl⟩ := Prod.mk.inj heq
      exact ⟨by simp, columnIdx_of_mem hattributes hattr _⟩
  · refine List.nodup_append.mpr ⟨h.columnsNodup, ?_, ?_⟩
    · apply List.Nodup.of_map Prod.snd
      rw [List.map_map]
      exact attributesMap_nodup hattributes
    · rintro ⟨entity, column⟩ hold _ hlast rfl
      obtain ⟨attr, -, heq⟩ := List.mem_map.mp hlast
      exact hnew ((Prod.mk.inj heq).1 ▸ (h.columnVec entity column hold).1)
  · intro a entity hentity
    cases aliasName with
    | none => exact List.mem_append_left _ (h.aliases a entity hentity)
    | some aliasName =>
      rcases emplace_eq_some hentity with hold | ⟨-, -, rfl⟩
      · exact List.mem_append_left _ (h.aliases a entity hold)
      · simp

end Scope

/-- Each table of the list adds one entity. -/
theorem fromClause_length {tables : List (String × Option String)} {scope : Scope}
    (h : fromClause tables = .ok scope) : scope.entities.length = tables.length := by
  suffices hfold : ∀ (start : Scope),
      tables.foldlM (fun scope table => scope.addTable table.1 table.2) start = .ok scope →
      scope.entities.length = start.entities.length + tables.length by
    simpa using hfold {} h
  clear h
  induction tables with
  | nil =>
    intro start h
    obtain rfl := Except.ok.inj h
    rfl
  | cons table tables ih =>
    intro start h
    rw [List.foldlM_cons] at h
    obtain ⟨next, hnext, h⟩ := bind_eq_ok.mp h
    obtain ⟨attributes, -, rfl⟩ := Scope.addTable_eq_ok hnext
    rw [ih _ h]
    simp
    omega

theorem fromClause_sound {tables : List (String × Option String)} {scope : Scope}
    (h : fromClause tables = .ok scope) : scope.Sound := by
  suffices hfold : ∀ (start : Scope), start.Sound →
      tables.foldlM (fun scope table => scope.addTable table.1 table.2) start = .ok scope →
      scope.Sound from hfold {} Scope.Sound.empty h
  clear h
  induction tables with
  | nil =>
    intro start hstart h
    exact Except.ok.inj h ▸ hstart
  | cons table tables ih =>
    intro start hstart h
    rw [List.foldlM_cons] at h
    obtain ⟨next, hnext, h⟩ := bind_eq_ok.mp h
    exact ih next (hstart.addTable hnext) h

end HashJoin
