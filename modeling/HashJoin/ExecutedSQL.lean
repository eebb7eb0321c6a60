import HashJoin.QueryAnswer

/-!
# The query that DuckDB executes

`run` does not hand DuckDB the query itself: `executed_sql` puts the columns that the plan returns
in the place of the select list. It looks for the first `FROM` of the text, be it the keyword or
not, and for the last semicolon. If it finds the keyword, and the names of the tables differ, as SQL
wants them to, the new query selects the same columns of the same tables, so that its answer is that
of the query.
-/

namespace HashJoin

/-! ## The text -/

def ColumnRef.text (ref : ColumnRef) : List Char :=
  (ref.table.getD "").toList ++ '.' :: ref.name.toList

/-- The name that a table of the `FROM` list goes by. -/
def tableName (table : String × Option String) : String := table.2.getD table.1

/-- What the aliases of both directions have in common, when the tables go by different names. -/
structure Aliased (tables : List (String × Option String)) (scope : Scope)
    (aliases : TableEntity → Option String) : Prop where
  alias_iff : ∀ name entity, scope.aliasMap name = some entity ↔ aliases entity = some name
  named : ∀ name entity, scope.aliasMap name = some entity → ∃ table, (table, some name) ∈ tables
  plain : ∀ entity ∈ scope.entities, aliases entity = none → (entity.table, none) ∈ tables

section

variable {tables : List (String × Option String)} {scope scope' : Scope}
  {aliases : TableEntity → Option String}

theorem Aliased.empty : Aliased [] {} fun _ => none := ⟨by simp, by simp, by simp⟩

end

section

variable {tables : List (String × Option String)} {scope : Scope}
  {columnToTables : String → Option (List String)} {aliases : TableEntity → Option String}

/-- A table without an alias that a column was found in is the only one of its name. -/
theorem SelectsAttr.plain (hs : scope.Sound) {ref : ColumnRef} {entity : TableEntity}
    {column : String} (h : SelectsAttr scope columnToTables ref (entity, column))
    (hentity : entity ∈ scope.entities) (hnone : ∀ name, scope.aliasMap name ≠ some entity) :
    entity.id = 0 ∧ scope.tableCounts entity.table = some 1 := by
  obtain ⟨junk, hextract⟩ := h
  have hone : ∀ {table : String} {count : Int} {e : TableEntity} {c c' : String},
      scope.tableCounts table = some count →
      (if count = 1 then Except.ok (c, (⟨table, 0⟩ : TableEntity))
        else .error s!"Ambiguous table: {table}") = .ok (c', e) →
      e.id = 0 ∧ scope.tableCounts e.table = some 1 := by
    intro table count e c c' hcount hif
    split at hif
    · next hc =>
      obtain ⟨-, rfl⟩ := Prod.mk.inj (Except.ok.inj hif)
      exact ⟨rfl, hc ▸ hcount⟩
    · cases hif
  unfold extractColumnAndTable at hextract
  cases hexpr : ref.table with
  | some table =>
    simp only [hexpr] at hextract
    cases halias : scope.aliasMap table with
    | some entity' =>
      simp only [halias] at hextract
      obtain ⟨-, rfl⟩ := Prod.mk.inj (Except.ok.inj hextract)
      exact absurd halias (hnone table)
    | none =>
      simp only [halias] at hextract
      cases hcount : scope.tableCounts table with
      | none => simp [hcount] at hextract
      | some count =>
        simp only [hcount] at hextract
        exact hone hcount hextract
  | none =>
    simp only [hexpr] at hextract
    cases htables : columnToTables ref.name with
    | none => simp [htables] at hextract
    | some tables =>
      simp only [htables] at hextract
      match tables with
      | [] | _ :: _ :: _ => simp at hextract
      | [table] =>
        simp only at hextract
        cases hcount : scope.tableCounts table with
        | some count =>
          simp only [hcount] at hextract
          exact hone hcount hextract
        | none =>
          -- The entity is not assigned, and no table has the empty name.
          simp only [hcount] at hextract
          obtain ⟨-, rfl⟩ := Prod.mk.inj (Except.ok.inj hextract)
          obtain ⟨attributes, first, hnumbers⟩ := hs.numbers _ hentity
          have hschema := hnumbers.schema
          rw [attributesMap_empty] at hschema
          cases hschema

/-- A column is found again under the name that its table goes by. -/
theorem Aliased.extract (h : Aliased tables scope aliases) (hs : scope.Sound)
    (hnames : (tables.map tableName).Nodup) {ref : ColumnRef} {entity : TableEntity}
    {column : String} (hselects : SelectsAttr scope columnToTables ref (entity, column))
    (hentity : entity ∈ scope.entities) (junk : Int) :
    extractColumnAndTable scope columnToTables junk
      ⟨some ((aliases entity).getD entity.table), column⟩ = .ok (column, entity) := by
  unfold extractColumnAndTable
  cases halias : aliases entity with
  | some name => simp [(h.alias_iff name entity).mpr halias]
  | none =>
    obtain ⟨hid, hcount⟩ := hselects.plain hs hentity fun name hname => by
      rw [h.alias_iff, halias] at hname
      cases hname
    -- An alias that is the name of the table would be another table of that name.
    have hmap : scope.aliasMap entity.table = none := by
      cases hget : scope.aliasMap entity.table with
      | none => rfl
      | some other =>
        obtain ⟨table, htable⟩ := h.named entity.table other hget
        have hplain := h.plain entity hentity halias
        have heq := List.inj_on_of_nodup_map hnames htable hplain rfl
        cases heq
    have hself : (⟨entity.table, 0⟩ : TableEntity) = entity := by rw [← hid]
    simp [hmap, hcount, hself]

theorem ColumnRef.value_of_extract {ref : ColumnRef} {entity : TableEntity} {column : String}
    (h : extractColumnAndTable scope columnToTables 0 ref = .ok (column, entity))
    (rows : TableEntity → List Data) :
    ref.value scope columnToTables rows = columnValue rows column entity := by
  unfold ColumnRef.value
  rw [h]

theorem SelectsAttr.value (hs : scope.Sound) {ref : ColumnRef} {entity : TableEntity}
    {column : String} (h : SelectsAttr scope columnToTables ref (entity, column))
    (hentity : entity ∈ scope.entities) (rows : TableEntity → List Data) :
    ref.value scope columnToTables rows = columnValue rows column entity := by
  obtain ⟨junk, hextract⟩ := h
  rcases hs.extract hextract with ⟨-, hany⟩ | hempty
  · exact ColumnRef.value_of_extract (hany 0) rows
  · obtain ⟨attributes, first, hnumbers⟩ := hs.numbers _ hentity
    have hschema := hnumbers.schema
    rw [hempty, attributesMap_empty] at hschema
    cases hschema

end

end HashJoin
