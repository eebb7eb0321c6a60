import HashJoin.WhereClause

/-!
# Splitting a `WHERE` clause keeps its meaning

Below the top a condition is either an equality of columns, or a filter of one table, or has an
equality of columns under a `NOT`. The top takes such conditions apart at the `AND`s.
-/

namespace HashJoin

/-! ## Columns -/

variable {scope : Scope} {columnToTables : String → Option (List String)}
  {likeMatch : List UInt8 → List UInt8 → Bool} {rows : TableEntity → List Data}

/-- A column belongs to an entity of the query, or to none. -/
theorem Scope.Sound.extract (h : scope.Sound) {junk : Int} {expr : ColumnRef} {column : String}
    {entity : TableEntity}
    (hextract : extractColumnAndTable scope columnToTables junk expr = .ok (column, entity)) :
    (entity ∈ scope.entities ∧ ∀ junk',
        extractColumnAndTable scope columnToTables junk' expr = .ok (column, entity)) ∨
      entity.table = "" := by
  have hone : ∀ table, scope.tableCounts table = some 1 → ⟨table, 0⟩ ∈ scope.entities :=
    fun table hcount => (h.counted _).mpr ⟨1, hcount, by simp, by simp⟩
  unfold extractColumnAndTable at hextract ⊢
  cases hexpr : expr.table with
  | some table =>
    simp only [hexpr] at hextract ⊢
    cases halias : scope.aliasMap table with
    | some entity' =>
      simp only [halias] at hextract ⊢
      obtain ⟨rfl, rfl⟩ := Prod.mk.inj (Except.ok.inj hextract)
      exact .inl ⟨h.aliases table _ halias, fun _ => rfl⟩
    | none =>
      simp only [halias] at hextract ⊢
      cases hcount : scope.tableCounts table with
      | none => simp [hcount] at hextract
      | some count =>
        simp only [hcount] at hextract ⊢
        split at hextract
        · next hc =>
          obtain ⟨rfl, rfl⟩ := Prod.mk.inj (Except.ok.inj hextract)
          subst hc
          exact .inl ⟨hone table hcount, fun _ => by simp⟩
        · cases hextract
  | none =>
    simp only [hexpr] at hextract ⊢
    cases htables : columnToTables expr.name with
    | none => simp [htables] at hextract
    | some tables =>
      simp only [htables] at hextract ⊢
      match tables with
      | [] | _ :: _ :: _ => simp at hextract
      | [table] =>
        simp only at hextract ⊢
        cases hcount : scope.tableCounts table with
        | none =>
          simp only [hcount] at hextract
          obtain ⟨rfl, rfl⟩ := Prod.mk.inj (Except.ok.inj hextract)
          exact .inr rfl
        | some count =>
          simp only [hcount] at hextract ⊢
          split at hextract
          · next hc =>
            obtain ⟨rfl, rfl⟩ := Prod.mk.inj (Except.ok.inj hextract)
            subst hc
            exact .inl ⟨hone table hcount, fun _ => by simp⟩
          · cases hextract

/-- A column that is found in the schema is one of the query. -/
theorem Scope.Sound.resolve (h : scope.Sound) {junk : Int} {expr : ColumnRef} {column : String}
    {entity : TableEntity} {idx : Nat}
    (hextract : extractColumnAndTable scope columnToTables junk expr = .ok (column, entity))
    (hidx : columnIdx column entity = .ok idx) :
    entity ∈ scope.entities ∧
      ∀ rows, expr.value scope columnToTables rows = columnValue rows column entity := by
  rcases h.extract hextract with ⟨hentity, hany⟩ | hempty
  · refine ⟨hentity, fun rows => ?_⟩
    unfold ColumnRef.value
    rw [hany 0]
  · obtain ⟨attributes, hattributes, -⟩ := columnIdx_eq_ok.mp hidx
    rw [hempty, attributesMap_empty] at hattributes
    cases hattributes

theorem findIdx?_name {attributes : List Attribute} {column : String} {i : Nat}
    (h : attributes.findIdx? (·.name = column) = some i) :
    ∃ attr, attributes[i]? = some attr ∧ attr.name = column := by
  obtain ⟨hi, hname, -⟩ := List.findIdx?_eq_some_iff_getElem.mp h
  exact ⟨attributes[i], List.getElem?_eq_getElem hi, by simpa using hname⟩

/-- A column that has a number is one of the query, and the number is its own. -/
theorem Scope.Sound.columnNumber (h : scope.Sound) {column : String} {entity : TableEntity}
    {i : Nat} (hnumber : scope.columnNumber column entity = .ok i) :
    entity ∈ scope.entities ∧ scope.columnVec[i]? = some (entity, column) ∧
      ∃ idx, columnIdx column entity = .ok idx := by
  unfold Scope.columnNumber at hnumber
  cases hmap : scope.columnMap entity with
  | none => simp [hmap] at hnumber
  | some numbers =>
    simp only [hmap] at hnumber
    have hentity : entity ∈ scope.entities := (h.columnMap entity).mp (by simp [hmap])
    obtain ⟨attributes, first, hnum⟩ := h.numbers entity hentity
    have hnumbers : numbers = numberColumns first attributes :=
      Option.some.inj (hmap.symm.trans hnum.columns)
    rw [hnumbers, numberColumns_eq] at hnumber
    cases hidx : attributes.findIdx? (·.name = column) with
    | none => simp [hidx] at hnumber
    | some j =>
      simp only [hidx, Option.map_some] at hnumber
      obtain ⟨attr, hj, hname⟩ := findIdx?_name hidx
      refine ⟨hentity, ?_, j, columnIdx_eq_ok.mpr ⟨attributes, hnum.schema, hidx⟩⟩
      rw [← Except.ok.inj hnumber, hnum.names j attr hj, hname]

theorem Scope.Sound.valueOf (h : scope.Sound) {column : String} {entity : TableEntity} {i : Nat}
    (hnumber : scope.columnNumber column entity = .ok i) :
    scope.valueOf rows i = columnValue rows column entity := by
  unfold Scope.valueOf
  rw [(h.columnNumber hnumber).2.1]

/-- A comparison of a column with a literal evaluates to its truth. -/
theorem Scope.RowsFit.eval_comparison (hfit : scope.RowsFit rows) {column : String}
    {entity : TableEntity} {idx : Nat} (hentity : entity ∈ scope.entities)
    (hidx : columnIdx column entity = .ok idx) (op : Op) {value : Literal}
    (hvalue : ∀ bits, value ≠ .fp64 bits) :
    (Statement.comparison idx op value).eval likeMatch (rows entity) =
      .ok (decide (Comparison.sql likeMatch op (columnValue rows column entity) value =
        .true)) := by
  obtain ⟨attributes, hattributes, hfind⟩ := columnIdx_eq_ok.mp hidx
  obtain ⟨attr, hattr, -⟩ := findIdx?_name hfind
  have htype := attributesMap_type hattributes attr (List.mem_of_getElem? hattr)
  have hrow := hfit entity hentity attributes hattributes
  have hlt : idx < (rows entity).length := by
    have hlen := hrow.length_eq
    have := (List.getElem?_eq_some_iff.mp hattr).1
    rw [List.length_map] at hlen
    omega
  have hdata : Data.HasType (rows entity)[idx] attr.type := by
    have hget := List.Forall₂.get hrow hlt (by rw [← hrow.length_eq]; exact hlt)
    have hattr' := (List.getElem?_eq_some_iff.mp hattr).2
    simpa [hattr'] using hget
  have hcolumn : columnValue rows column entity = (rows entity)[idx] := by
    unfold columnValue
    simp only [hidx]
    rw [List.getD_eq_getElem?_getD, List.getElem?_eq_getElem hlt, Option.getD_some]
  unfold Statement.eval
  rw [List.getElem?_eq_getElem hlt, hcolumn]
  exact congrArg Except.ok (Comparison.evalData_eq_sql htype hdata op hvalue)

theorem literal_ne_fp64 {operand : Operand} {value : Literal} (h : operand.literal = .ok value) :
    ∀ bits, value ≠ .fp64 bits := by
  rintro bits rfl
  cases operand <;> simp [Operand.literal] at h

/-! ## Conditions below the top -/

/-- What the parser makes of a condition that it does not take apart. -/
inductive Expr.Means (scope : Scope) (columnToTables : String → Option (List String))
    (likeMatch : List UInt8 → List UInt8 → Bool) (expr : Expr) : ParseOut → Prop
  | equality {entity : TableEntity} (h : expr.isColumnEquality = true)
      (hentity : entity.table = "") : Means _ _ _ _ ⟨none, entity⟩
  | filter {stmt : Statement} {entity : TableEntity} (hnone : expr.columnEqualities = [])
      (hentity : entity ∈ scope.entities)
      (heval : ∀ rows, scope.RowsFit rows → stmt.eval likeMatch (rows entity) =
        .ok (expr.holds scope columnToTables likeMatch rows)) :
      Means _ _ _ _ ⟨some (.statement stmt), entity⟩
  | nullChild {entity : TableEntity} (h : expr.negatesEquality = true)
      (hentity : entity.table = "") : Means _ _ _ _ ⟨some .nullChild, entity⟩

/-- The calls of `unite` for a condition: its equalities of columns. -/
def Expr.Unites (scope : Scope) (columnToTables : String → Option (List String)) (expr : Expr)
    (united united' : List (Nat × Nat)) : Prop :=
  ∀ rows, (∀ pair ∈ united', (scope.valueOf rows pair.1).equates (scope.valueOf rows pair.2)) ↔
    (∀ pair ∈ united, (scope.valueOf rows pair.1).equates (scope.valueOf rows pair.2)) ∧
      ∀ pair ∈ expr.columnEqualities, equalityHolds scope columnToTables rows pair = true

theorem assertColumn_eq_ok {operand : Operand} {ref : ColumnRef}
    (h : assertColumn operand = .ok ref) : operand = .columnRef ref := by
  cases operand <;> cases h
  rfl

section Leaves

variable {junk : List Bool → Int} {expr expr2 : Operand} {out : ParseOut}

/-- A comparison with a literal. -/
theorem Scope.Sound.means_literal (h : scope.Sound)
    (likeMatch : List UInt8 → List UInt8 → Bool) {ref : ColumnRef} {column : String}
    {entity : TableEntity} {idx : Nat} {j : Int}
    (hextract : extractColumnAndTable scope columnToTables j ref = .ok (column, entity))
    (hidx : columnIdx column entity = .ok idx) (op : Op) {operand : Operand} {value : Literal}
    (hvalue : operand.literal = .ok value) :
    entity ∈ scope.entities ∧ ∀ rows, scope.RowsFit rows →
      (Statement.comparison idx op value).eval likeMatch (rows entity) =
        .ok (literalHolds likeMatch op ((Operand.columnRef ref).value scope columnToTables rows)
          operand) := by
  obtain ⟨hentity, hcolumn⟩ := h.resolve hextract hidx
  refine ⟨hentity, fun rows hfit => ?_⟩
  have hvalue' : (Operand.columnRef ref).value scope columnToTables rows =
      columnValue rows column entity := hcolumn rows
  unfold literalHolds
  rw [hfit.eval_comparison hentity hidx op (literal_ne_fp64 hvalue), hvalue']
  simp only [hvalue]

/-- What is made of a condition, and what it does to the filters and to the union. -/
def Expr.Spec (scope : Scope) (columnToTables : String → Option (List String))
    (likeMatch : List UInt8 → List UInt8 → Bool) (state : ParseState) (expr : Expr)
    (result : ParseOut × ParseState) : Prop :=
  expr.Means scope columnToTables likeMatch result.1 ∧ result.2.filters = state.filters ∧
    expr.Unites scope columnToTables state.united result.2.united

/-- A filter leaves the union alone. -/
theorem Expr.Spec.filter {state : ParseState} {expr : Expr} {stmt : Statement}
    {entity : TableEntity} (hnone : expr.columnEqualities = []) (hentity : entity ∈ scope.entities)
    (heval : ∀ rows, scope.RowsFit rows → stmt.eval likeMatch (rows entity) =
      .ok (expr.holds scope columnToTables likeMatch rows)) :
    expr.Spec scope columnToTables likeMatch state (⟨some (.statement stmt), entity⟩, state) := by
  refine ⟨.filter hnone hentity heval, rfl, fun rows => ?_⟩
  rw [hnone]
  simp

theorem parseCompare_literal (h : scope.Sound) {op : CompareOp} {state : ParseState}
    {result : ParseOut × ParseState} (hne : ∀ ref, expr2 ≠ .columnRef ref)
    (hparse : parseCompare scope columnToTables junk op expr expr2 state = .ok result) :
    (Expr.compare op expr expr2).Spec scope columnToTables likeMatch state result := by
  have hnone : (Expr.compare op expr expr2).columnEqualities = [] := by
    cases expr2 <;> first | exact absurd rfl (hne _) | (cases op <;> rfl)
  have hholds : ∀ rows, (Expr.compare op expr expr2).holds scope columnToTables likeMatch rows =
      literalHolds likeMatch op.toOp (expr.value scope columnToTables rows) expr2 := fun rows => by
    cases expr2 <;> first | exact absurd rfl (hne _) | rfl
  have hparse' : (do
      let left ← assertColumn expr
      let found ← extractColumnAndTable scope columnToTables (junk [false]) left
      let value ← expr2.literal
      let idx ← columnIdx found.1 found.2
      .ok (⟨some (.statement (.comparison idx op.toOp value)), found.2⟩, state)) =
        Except.ok result := by
    rw [← hparse]
    cases expr2 <;> first | exact absurd rfl (hne _) | rfl
  obtain ⟨left, hleft, h₁⟩ := bind_eq_ok.mp hparse'
  obtain ⟨⟨column, entity⟩, hextract, h₂⟩ := bind_eq_ok.mp h₁
  obtain ⟨value, hvalue, h₃⟩ := bind_eq_ok.mp h₂
  obtain ⟨idx, hidx, h₄⟩ := bind_eq_ok.mp h₃
  obtain rfl := assertColumn_eq_ok hleft
  obtain ⟨hentity, heval⟩ := h.means_literal likeMatch hextract hidx op.toOp hvalue
  rw [← Except.ok.inj h₄]
  exact .filter hnone hentity fun rows hfit => by rw [heval rows hfit, hholds rows]

theorem parseCompare_columnRef (h : scope.Sound) {op : CompareOp} {state : ParseState}
    {result : ParseOut × ParseState} {right : ColumnRef}
    (hparse : parseCompare scope columnToTables junk op expr (.columnRef right) state =
      .ok result) :
    (Expr.compare op expr (.columnRef right)).Spec scope columnToTables likeMatch state result := by
  obtain ⟨left, hleft, h₁⟩ := bind_eq_ok.mp hparse
  obtain ⟨⟨column, entity⟩, hextract, h₂⟩ := bind_eq_ok.mp h₁
  obtain ⟨⟨column2, entity2⟩, hextract2, h₃⟩ := bind_eq_ok.mp h₂
  obtain rfl := assertColumn_eq_ok hleft
  simp only at h₃
  split at h₃
  · cases h₃
  · next hop =>
    obtain rfl := not_not.mp hop
    obtain ⟨leftIdx, hleftIdx, h₄⟩ := bind_eq_ok.mp h₃
    obtain ⟨rightIdx, hrightIdx, h₅⟩ := bind_eq_ok.mp h₄
    obtain ⟨-, -, idx, hidx⟩ := h.columnNumber hleftIdx
    obtain ⟨-, -, idx2, hidx2⟩ := h.columnNumber hrightIdx
    rw [← Except.ok.inj h₅]
    refine ⟨.equality rfl rfl, rfl, fun rows => ?_⟩
    have hleft := (h.resolve hextract hidx).2 rows
    have hright := (h.resolve hextract2 hidx2).2 rows
    simp only [List.forall_mem_append, List.forall_mem_singleton, Expr.columnEqualities,
      equalityHolds, Operand.value, hleft, hright, h.valueOf hleftIdx, h.valueOf hrightIdx]

theorem parseLike_spec (h : scope.Sound) {negated : Bool} {state : ParseState} {out : ParseOut}
    (hparse : parseLike scope columnToTables junk negated expr expr2 = .ok out) :
    (Expr.like negated expr expr2).Spec scope columnToTables likeMatch state (out, state) := by
  obtain ⟨left, hleft, h₁⟩ := bind_eq_ok.mp hparse
  obtain ⟨⟨column, entity⟩, hextract, h₂⟩ := bind_eq_ok.mp h₁
  obtain rfl := assertColumn_eq_ok hleft
  cases expr2 with
  | literalString name =>
    obtain ⟨idx, hidx, h₃⟩ := bind_eq_ok.mp h₂
    rw [← Except.ok.inj h₃]
    obtain ⟨hentity, heval⟩ := h.means_literal likeMatch hextract hidx
      (if negated then .notLike else .like)
      (show (Operand.literalString name).literal = .ok (.varchar name) from rfl)
    exact .filter rfl hentity heval
  | columnRef ref => cases h₂
  | literalInt ival => cases h₂
  | other exprType => cases h₂

theorem parseIsNull_spec (h : scope.Sound) {state : ParseState} {out : ParseOut}
    (hparse : parseIsNull scope columnToTables junk expr = .ok out) :
    (Expr.isNull expr).Spec scope columnToTables likeMatch state (out, state) := by
  obtain ⟨child, hchild, h₁⟩ := bind_eq_ok.mp hparse
  obtain ⟨⟨column, entity⟩, hextract, h₂⟩ := bind_eq_ok.mp h₁
  obtain ⟨idx, hidx, h₃⟩ := bind_eq_ok.mp h₂
  obtain rfl := assertColumn_eq_ok hchild
  rw [← Except.ok.inj h₃]
  obtain ⟨hentity, hcolumn⟩ := h.resolve hextract hidx
  refine .filter rfl hentity fun rows hfit => ?_
  have hvalue : (Operand.columnRef child).value scope columnToTables rows =
      columnValue rows column entity := hcolumn rows
  rw [hfit.eval_comparison hentity hidx .isNull (by simp), Expr.holds, hvalue]
  simp [Comparison.sql]

end Leaves

/-! ## Several comparisons -/

theorem Statement.eval_and {record : List Data} {l r : Statement} {a b : Bool}
    (hl : l.eval likeMatch record = .ok a) (hr : r.eval likeMatch record = .ok b) :
    (Statement.and l r).eval likeMatch record = .ok (a && b) := by
  unfold eval
  rw [hl, ok_bind, hr]
  cases a <;> rfl

theorem Statement.eval_or {record : List Data} {l r : Statement} {a b : Bool}
    (hl : l.eval likeMatch record = .ok a) (hr : r.eval likeMatch record = .ok b) :
    (Statement.or l r).eval likeMatch record = .ok (a || b) := by
  unfold eval
  rw [hl, ok_bind, hr]
  cases a <;> rfl

theorem Statement.eval_not {record : List Data} {child : Statement} {a : Bool}
    (h : child.eval likeMatch record = .ok a) :
    (Statement.not child).eval likeMatch record = .ok (!a) := by
  unfold eval
  rw [h, ok_bind]

section Leaves

variable {junk : List Bool → Int} {expr : Operand} {out : ParseOut}

theorem parseBetween_spec (h : scope.Sound) {low high : Operand} {state : ParseState}
    (hparse : parseBetween scope columnToTables junk expr low high = .ok out) :
    (Expr.between expr low high).Spec scope columnToTables likeMatch state (out, state) := by
  obtain ⟨left, hleft, h₁⟩ := bind_eq_ok.mp hparse
  obtain ⟨⟨column, entity⟩, hextract, h₂⟩ := bind_eq_ok.mp h₁
  obtain ⟨lowValue, hlow, h₃⟩ := bind_eq_ok.mp h₂
  obtain ⟨highValue, hhigh, h₄⟩ := bind_eq_ok.mp h₃
  obtain ⟨idx, hidx, h₅⟩ := bind_eq_ok.mp h₄
  obtain rfl := assertColumn_eq_ok hleft
  rw [← Except.ok.inj h₅]
  obtain ⟨hentity, hlow⟩ := h.means_literal likeMatch hextract hidx .geq hlow
  have hhigh := (h.means_literal likeMatch hextract hidx .leq hhigh).2
  exact .filter rfl hentity fun rows hfit => Statement.eval_and (hlow rows hfit) (hhigh rows hfit)

/-- The statement of an `IN` after some items of its list, of which one holds if `b`. -/
def ItemsMean (scope : Scope) (likeMatch : List UInt8 → List UInt8 → Bool) (entity : TableEntity)
    (b : (TableEntity → List Data) → Bool) : Option Filter → Prop
  | none => ∀ rows, b rows = false
  | some (.statement stmt) =>
    ∀ rows, scope.RowsFit rows → stmt.eval likeMatch (rows entity) = .ok (b rows)
  | some .nullChild => False

theorem parseItem_spec (h : scope.Sound) {ref : ColumnRef} {column : String}
    {entity : TableEntity} {j : Int}
    (hextract : extractColumnAndTable scope columnToTables j ref = .ok (column, entity))
    {b : (TableEntity → List Data) → Bool} {before after : Option Filter} {item : Operand}
    (hbefore : ItemsMean scope likeMatch entity b before)
    (hparse : parseItem column entity before item = .ok after) :
    entity ∈ scope.entities ∧ (∃ stmt, after = some (.statement stmt)) ∧
      ItemsMean scope likeMatch entity (fun rows => b rows ||
        literalHolds likeMatch .eq ((Operand.columnRef ref).value scope columnToTables rows) item)
        after := by
  obtain ⟨value, hvalue, h₁⟩ := bind_eq_ok.mp hparse
  obtain ⟨idx, hidx, h₂⟩ := bind_eq_ok.mp h₁
  obtain ⟨hentity, heval⟩ := h.means_literal likeMatch hextract hidx .eq hvalue
  refine ⟨hentity, ?_⟩
  cases before with
  | none =>
    obtain rfl := Except.ok.inj h₂
    refine ⟨⟨_, rfl⟩, fun rows hfit => ?_⟩
    simp only [heval rows hfit, hbefore rows, Bool.false_or]
  | some old =>
    cases old with
    | statement stmt =>
      obtain rfl := Except.ok.inj h₂
      exact ⟨⟨_, rfl⟩, fun rows hfit => Statement.eval_or (hbefore rows hfit) (heval rows hfit)⟩
    | nullChild => exact hbefore.elim

theorem foldlM_parseItem (h : scope.Sound) {ref : ColumnRef} {column : String}
    {entity : TableEntity} {j : Int}
    (hextract : extractColumnAndTable scope columnToTables j ref = .ok (column, entity))
    {exprList : List Operand} {b : (TableEntity → List Data) → Bool} {before after : Option Filter}
    (hbefore : ItemsMean scope likeMatch entity b before)
    (hparse : exprList.foldlM (parseItem column entity) before = .ok after) :
    (exprList ≠ [] → entity ∈ scope.entities) ∧
      (exprList ≠ [] ∨ (∃ stmt, before = some (.statement stmt)) →
        ∃ stmt, after = some (.statement stmt)) ∧
      ItemsMean scope likeMatch entity (fun rows => b rows || exprList.any (literalHolds likeMatch
        .eq ((Operand.columnRef ref).value scope columnToTables rows))) after := by
  induction exprList generalizing b before with
  | nil =>
    obtain rfl := Except.ok.inj hparse
    simpa using hbefore
  | cons item exprList ih =>
    rw [List.foldlM_cons] at hparse
    obtain ⟨next, hnext, hparse⟩ := bind_eq_ok.mp hparse
    obtain ⟨hentity, hsome, hmean⟩ := parseItem_spec h hextract hbefore hnext
    obtain ⟨-, hafter, hall⟩ := ih hmean hparse
    refine ⟨fun _ => hentity, fun _ => hafter (.inr hsome), ?_⟩
    simpa only [List.any_cons, Bool.or_assoc] using hall

theorem parseIn_spec (h : scope.Sound) {exprList : List Operand} (hne : exprList ≠ [])
    {state : ParseState}
    (hparse : parseIn scope columnToTables junk expr exprList = .ok out) :
    (Expr.in expr exprList).Spec scope columnToTables likeMatch state (out, state) := by
  obtain ⟨left, hleft, h₁⟩ := bind_eq_ok.mp hparse
  obtain ⟨⟨column, entity⟩, hextract, h₂⟩ := bind_eq_ok.mp h₁
  obtain ⟨stmts, hstmts, h₃⟩ := bind_eq_ok.mp h₂
  obtain rfl := assertColumn_eq_ok hleft
  rw [← Except.ok.inj h₃]
  have hstart : ItemsMean scope likeMatch entity (fun _ => false) none := fun _ => rfl
  obtain ⟨hentity, hsome, hmean⟩ := foldlM_parseItem h hextract hstart hstmts
  obtain ⟨stmt, rfl⟩ := hsome (.inl hne)
  exact .filter rfl (hentity hne) hmean

end Leaves

/-! ## Connectives -/

theorem Scope.Sound.table_ne_empty (h : scope.Sound) {entity : TableEntity}
    (hentity : entity ∈ scope.entities) : entity.table ≠ "" := by
  intro hempty
  obtain ⟨attributes, first, hnum⟩ := h.numbers entity hentity
  have hschema := hnum.schema
  rw [hempty, attributesMap_empty] at hschema
  cases hschema

theorem Expr.negatesEquality_iff {expr : Expr} : expr.negatesEquality = true ↔
    expr.isColumnEquality = false ∧ expr.columnEqualities ≠ [] := by
  simp [negatesEquality]

/-- The equalities of two conditions after each other. -/
theorem Expr.Unites.append {expr left right : Expr} {united united₁ united₂ : List (Nat × Nat)}
    (hl : left.Unites scope columnToTables united united₁)
    (hr : right.Unites scope columnToTables united₁ united₂)
    (h : expr.columnEqualities = left.columnEqualities ++ right.columnEqualities) :
    expr.Unites scope columnToTables united united₂ := by
  intro rows
  rw [hr rows, hl rows, h, List.forall_mem_append, and_assoc]

theorem combine_eq_ok {make : Filter → Filter → Filter} {left right out : ParseOut}
    (h : combine make left right = .ok out) :
    ∃ l r entity, left = ⟨some l, entity⟩ ∧ right = ⟨some r, entity⟩ ∧
      out = ⟨some (make l r), entity⟩ := by
  obtain ⟨_ | l, entity⟩ := left
  · cases h
  obtain ⟨_ | r, entity2⟩ := right
  · cases h
  simp only [combine] at h
  split at h
  · cases h
  · next hentity =>
    obtain rfl := not_not.mp hentity
    exact ⟨l, r, entity, rfl, rfl, (Except.ok.inj h).symm⟩

/-- Two sides of one table are a filter if both are, and have a null child if both have one. -/
theorem Expr.Means.combine (h : scope.Sound) {expr left right : Expr} {outl outr out : ParseOut}
    (hl : left.Means scope columnToTables likeMatch outl)
    (hr : right.Means scope columnToTables likeMatch outr)
    {make : Filter → Filter → Filter} (hcombine : combine make outl outr = .ok out)
    (heqs : expr.columnEqualities = left.columnEqualities ++ right.columnEqualities)
    (hne : expr.isColumnEquality = false) {op : Bool → Bool → Bool}
    (hmake : ∀ l r, ∃ stmt, make (.statement l) (.statement r) = .statement stmt ∧
      ∀ record a b, l.eval likeMatch record = .ok a → r.eval likeMatch record = .ok b →
        stmt.eval likeMatch record = .ok (op a b))
    (hnull : make .nullChild .nullChild = .nullChild)
    (hholds : ∀ rows, expr.holds scope columnToTables likeMatch rows =
      op (left.holds scope columnToTables likeMatch rows)
        (right.holds scope columnToTables likeMatch rows)) :
    expr.Means scope columnToTables likeMatch out := by
  obtain ⟨l, r, entity, rfl, rfl, rfl⟩ := combine_eq_ok hcombine
  cases hl with
  | @filter l _ hnonel hentity hevall =>
    cases hr with
    | @filter r _ hnoner _ hevalr =>
      obtain ⟨stmt, hstmt, heval⟩ := hmake l r
      rw [hstmt]
      refine .filter (by rw [heqs, hnonel, hnoner]; rfl) hentity fun rows hfit => ?_
      rw [heval _ _ _ (hevall rows hfit) (hevalr rows hfit), hholds rows]
    | nullChild _ hempty => exact absurd hempty (h.table_ne_empty hentity)
  | nullChild hneg hempty =>
    cases hr with
    | filter _ hentity _ => exact absurd hempty (h.table_ne_empty hentity)
    | nullChild _ _ =>
      rw [hnull]
      refine .nullChild (negatesEquality_iff.mpr ⟨hne, ?_⟩) hempty
      rw [heqs]
      exact List.append_ne_nil_of_left_ne_nil (negatesEquality_iff.mp hneg).2 _

/-- A `NOT` above an equality of columns has a null child. -/
theorem Expr.Means.not {child : Expr} {out : ParseOut}
    (h : child.Means scope columnToTables likeMatch out) :
    (Expr.not child).Means scope columnToTables likeMatch
      ⟨some (.makeNot out.statement), out.entity⟩ := by
  cases h with
  | equality heq hempty =>
    refine .nullChild ?_ hempty
    unfold isColumnEquality at heq
    split at heq
    · rfl
    · cases heq
  | filter hnone hentity heval =>
    exact .filter hnone hentity fun rows hfit => Statement.eval_not (heval rows hfit)
  | nullChild hneg hempty =>
    exact .nullChild (negatesEquality_iff.mpr ⟨rfl, (negatesEquality_iff.mp hneg).2⟩) hempty

/-- A condition that is not taken apart: below the top, or not an `AND`. -/
theorem parseExprImpl_spec (h : scope.Sound) {expr : Expr} (hwf : expr.WellFormed)
    {junk : List Bool → Int} {level : Nat} (hlevel : 0 < level ∨ ∀ l r, expr ≠ .and l r)
    {state : ParseState} {result : ParseOut × ParseState}
    (hparse : parseExprImpl scope columnToTables junk level expr state = .ok result) :
    expr.Spec scope columnToTables likeMatch state result := by
  induction expr generalizing junk level state result with
  | and l r ihl ihr =>
    have hlevel : 0 < level := hlevel.resolve_right fun hne => hne l r rfl
    rw [parseExprImpl] at hparse
    obtain ⟨⟨outl, state₁⟩, hl, h₁⟩ := bind_eq_ok.mp hparse
    obtain ⟨⟨outr, state₂⟩, hr, h₂⟩ := bind_eq_ok.mp h₁
    simp only [if_neg hlevel.ne'] at h₂
    obtain ⟨out, hcombine, h₃⟩ := bind_eq_ok.mp h₂
    obtain ⟨hmeansl, hfiltersl, hunitesl⟩ := ihl hwf.1 (.inl hlevel) hl
    obtain ⟨hmeansr, hfiltersr, hunitesr⟩ := ihr hwf.2 (.inl hlevel) hr
    rw [← Except.ok.inj h₃]
    refine ⟨?_, hfiltersr.trans hfiltersl, hunitesl.append hunitesr rfl⟩
    exact hmeansl.combine h hmeansr hcombine rfl rfl
      (fun l r => ⟨_, rfl, fun _ _ _ => Statement.eval_and⟩) rfl fun _ => rfl
  | or l r ihl ihr =>
    rw [parseExprImpl] at hparse
    obtain ⟨⟨outl, state₁⟩, hl, h₁⟩ := bind_eq_ok.mp hparse
    obtain ⟨⟨outr, state₂⟩, hr, h₂⟩ := bind_eq_ok.mp h₁
    obtain ⟨out, hcombine, h₃⟩ := bind_eq_ok.mp h₂
    obtain ⟨hmeansl, hfiltersl, hunitesl⟩ := ihl hwf.1 (.inl (Nat.succ_pos _)) hl
    obtain ⟨hmeansr, hfiltersr, hunitesr⟩ := ihr hwf.2 (.inl (Nat.succ_pos _)) hr
    rw [← Except.ok.inj h₃]
    refine ⟨?_, hfiltersr.trans hfiltersl, hunitesl.append hunitesr rfl⟩
    exact hmeansl.combine h hmeansr hcombine rfl rfl
      (fun l r => ⟨_, rfl, fun _ _ _ => Statement.eval_or⟩) rfl fun _ => rfl
  | not child ih =>
    rw [parseExprImpl] at hparse
    obtain ⟨⟨out, state₁⟩, hchild, h₁⟩ := bind_eq_ok.mp hparse
    obtain ⟨hmeans, hfilters, hunites⟩ := ih hwf (.inl (Nat.succ_pos _)) hchild
    rw [← Except.ok.inj h₁]
    exact ⟨hmeans.not, hfilters, hunites⟩
  | compare op expr expr2 =>
    rw [parseExprImpl] at hparse
    cases expr2 with
    | columnRef right => exact parseCompare_columnRef h hparse
    | literalInt ival => exact parseCompare_literal h (by simp) hparse
    | literalString name => exact parseCompare_literal h (by simp) hparse
    | other exprType => exact parseCompare_literal h (by simp) hparse
  | like negated expr expr2 =>
    rw [parseExprImpl] at hparse
    obtain ⟨out, hout, h₁⟩ := bind_eq_ok.mp hparse
    rw [← Except.ok.inj h₁]
    exact parseLike_spec h hout
  | between expr low high =>
    rw [parseExprImpl] at hparse
    obtain ⟨out, hout, h₁⟩ := bind_eq_ok.mp hparse
    rw [← Except.ok.inj h₁]
    exact parseBetween_spec h hout
  | «in» expr exprList =>
    rw [parseExprImpl] at hparse
    obtain ⟨out, hout, h₁⟩ := bind_eq_ok.mp hparse
    rw [← Except.ok.inj h₁]
    exact parseIn_spec h hwf hout
  | isNull expr =>
    rw [parseExprImpl] at hparse
    obtain ⟨out, hout, h₁⟩ := bind_eq_ok.mp hparse
    rw [← Except.ok.inj h₁]
    exact parseIsNull_spec h hout
  | otherOperator opType => cases hparse
  | other exprType => cases hparse

/-! ## The top -/

theorem Filter.satisfied_makeAnd {record : List Data} (l r : Filter) :
    (l.makeAnd r).Satisfied likeMatch record ↔
      l.Satisfied likeMatch record ∧ r.Satisfied likeMatch record := by
  cases l with
  | nullChild => simp [makeAnd, Satisfied]
  | statement l =>
    cases r with
    | nullChild => simp [makeAnd, Satisfied]
    | statement r =>
      simp only [makeAnd, Satisfied, Statement.eval]
      cases l.eval likeMatch record with
      | error e => simp [Bind.bind, Except.bind]
      | ok a => cases a <;> simp

theorem ParseState.satisfied_insertFilter {state : ParseState} {entity : TableEntity}
    {stmt : Filter} :
    (state.insertFilter entity stmt).Satisfied scope likeMatch rows ↔
      state.Satisfied scope likeMatch rows ∧
        (entity ∈ scope.entities → stmt.Satisfied likeMatch (rows entity)) := by
  -- the new filter of the entity is the old one, if any, and the inserted one
  obtain ⟨new, hnew, hsat⟩ : ∃ new, state.insertFilter entity stmt =
      { state with filters := Function.update state.filters entity (some new) } ∧
      (new.Satisfied likeMatch (rows entity) ↔
        (∀ old, state.filters entity = some old → old.Satisfied likeMatch (rows entity)) ∧
          stmt.Satisfied likeMatch (rows entity)) := by
    unfold insertFilter
    cases hold : state.filters entity with
    | none => exact ⟨stmt, rfl, by simp⟩
    | some old => exact ⟨old.makeAnd stmt, rfl, by simp [Filter.satisfied_makeAnd]⟩
  rw [hnew]
  constructor
  · rintro ⟨hfilters, hunited⟩
    have hupdated := fun hentity => hsat.mp (hfilters entity hentity new (Function.update_self ..))
    refine ⟨⟨fun entity' hentity' old hold => ?_, hunited⟩, fun hentity => (hupdated hentity).2⟩
    by_cases hsame : entity' = entity
    · subst hsame
      exact (hupdated hentity').1 old hold
    · exact hfilters entity' hentity' old (by simpa [Function.update_of_ne hsame] using hold)
  · rintro ⟨⟨hfilters, hunited⟩, hstmt⟩
    refine ⟨fun entity' hentity' f hf => ?_, hunited⟩
    by_cases hsame : entity' = entity
    · subst hsame
      obtain rfl : new = f := by simpa using hf
      exact hsat.mpr ⟨hfilters entity' hentity', hstmt hentity'⟩
    · exact hfilters entity' hentity' f (by simpa [Function.update_of_ne hsame] using hf)

theorem ParseState.satisfied_insertOut {state : ParseState} {out : ParseOut} :
    (state.insertOut out).Satisfied scope likeMatch rows ↔
      state.Satisfied scope likeMatch rows ∧ out.Satisfied scope likeMatch rows := by
  obtain ⟨_ | stmt, entity⟩ := out
  · simp [insertOut, ParseOut.Satisfied]
  · unfold insertOut
    rw [satisfied_insertFilter]
    simp [ParseOut.Satisfied]

/-- What is left of a conjunct: the condition itself, or its equalities of columns if one of them
is under a `NOT`. -/
def Expr.Selected (scope : Scope) (columnToTables : String → Option (List String))
    (likeMatch : List UInt8 → List UInt8 → Bool) (rows : TableEntity → List Data) (expr : Expr) :
    Prop :=
  (expr.negatesEquality = false → expr.holds scope columnToTables likeMatch rows = true) ∧
    (expr.negatesEquality = true →
      ∀ pair ∈ expr.columnEqualities, equalityHolds scope columnToTables rows pair = true)

theorem Expr.holds_of_isColumnEquality {expr : Expr} (h : expr.isColumnEquality = true) :
    expr.holds scope columnToTables likeMatch rows = true ↔
      ∀ pair ∈ expr.columnEqualities, equalityHolds scope columnToTables rows pair = true := by
  unfold isColumnEquality at h
  split at h
  · simp [holds, columnEqualities]
  · cases h

/-- The satisfied equalities of a condition are those made of it, and a filter leaves none. -/
theorem Expr.Spec.satisfied (h : scope.Sound) (hfit : scope.RowsFit rows) {expr : Expr}
    {state : ParseState} {result : ParseOut × ParseState}
    (hspec : expr.Spec scope columnToTables likeMatch state result) :
    result.2.Satisfied scope likeMatch rows ∧ result.1.Satisfied scope likeMatch rows ↔
      state.Satisfied scope likeMatch rows ∧
        expr.Selected scope columnToTables likeMatch rows := by
  obtain ⟨out, state'⟩ := result
  obtain ⟨hmeans, hfilters, hunites⟩ := hspec
  have hstate : state'.Satisfied scope likeMatch rows ↔ state.Satisfied scope likeMatch rows ∧
      ∀ pair ∈ expr.columnEqualities, equalityHolds scope columnToTables rows pair = true := by
    constructor
    · rintro ⟨hf, hu⟩
      obtain ⟨hu, heqs⟩ := (hunites rows).mp hu
      exact ⟨⟨hfilters ▸ hf, hu⟩, heqs⟩
    · rintro ⟨⟨hf, hu⟩, heqs⟩
      refine ⟨?_, (hunites rows).mpr ⟨hu, heqs⟩⟩
      simp only at hfilters
      rwa [hfilters]
  rw [hstate, and_assoc]
  apply and_congr_right
  intro _
  cases hmeans with
  | equality heq hempty =>
    have hneg : expr.negatesEquality = false := by simp [negatesEquality, heq]
    simp [Selected, hneg, holds_of_isColumnEquality heq, ParseOut.Satisfied]
  | filter hnone hentity heval =>
    have hneg : expr.negatesEquality = false := by simp [negatesEquality, hnone]
    simp [Selected, hneg, hnone, ParseOut.Satisfied, hentity, Filter.Satisfied, heval rows hfit]
  | nullChild hneg hempty =>
    have hentity := fun hmem => h.table_ne_empty hmem hempty
    simp only [Selected, hneg, ParseOut.Satisfied]
    simpa using fun _ hmem => (hentity hmem).elim

theorem parseExprImpl_conjunct (h : scope.Sound) (hfit : scope.RowsFit rows) {expr : Expr}
    (hwf : expr.WellFormed) (hne : ∀ l r, expr ≠ .and l r) {junk : List Bool → Int}
    {state : ParseState} {result : ParseOut × ParseState}
    (hparse : parseExprImpl scope columnToTables junk 0 expr state = .ok result) :
    result.2.Satisfied scope likeMatch rows ∧ result.1.Satisfied scope likeMatch rows ↔
      state.Satisfied scope likeMatch rows ∧
        ∀ c ∈ expr.conjuncts, c.Selected scope columnToTables likeMatch rows := by
  have hconjuncts : expr.conjuncts = [expr] := by
    cases expr <;> first | rfl | exact absurd rfl (hne _ _)
  rw [hconjuncts, List.forall_mem_singleton]
  exact (parseExprImpl_spec h hwf (.inr hne) hparse).satisfied h hfit

/-- What the top makes of a condition, together with the filter it leaves to its caller. -/
theorem parseExprImpl_top (h : scope.Sound) (hfit : scope.RowsFit rows) {expr : Expr}
    (hwf : expr.WellFormed) {junk : List Bool → Int} {state : ParseState}
    {result : ParseOut × ParseState}
    (hparse : parseExprImpl scope columnToTables junk 0 expr state = .ok result) :
    result.2.Satisfied scope likeMatch rows ∧ result.1.Satisfied scope likeMatch rows ↔
      state.Satisfied scope likeMatch rows ∧
        ∀ c ∈ expr.conjuncts, c.Selected scope columnToTables likeMatch rows := by
  induction expr generalizing junk state result with
  | and l r ihl ihr =>
    rw [parseExprImpl] at hparse
    obtain ⟨⟨outl, state₁⟩, hl, h₁⟩ := bind_eq_ok.mp hparse
    obtain ⟨⟨outr, state₂⟩, hr, h₂⟩ := bind_eq_ok.mp h₁
    rw [← Except.ok.inj h₂]
    have hnone : ∀ entity,
        ParseOut.Satisfied scope likeMatch rows ⟨none, entity⟩ := fun _ _ hstmt => by cases hstmt
    -- the filters of both sides are inserted after both are parsed
    calc _ ↔ (state₂.Satisfied scope likeMatch rows ∧ outr.Satisfied scope likeMatch rows) ∧
          outl.Satisfied scope likeMatch rows := by
          simp only [ParseState.satisfied_insertOut, hnone, and_true]
          exact and_right_comm
      _ ↔ (state₁.Satisfied scope likeMatch rows ∧ outl.Satisfied scope likeMatch rows) ∧
          ∀ c ∈ r.conjuncts, c.Selected scope columnToTables likeMatch rows := by
          rw [ihr hwf.2 hr]
          exact and_right_comm
      _ ↔ _ := by
          rw [ihl hwf.1 hl, Expr.conjuncts, List.forall_mem_append, and_assoc]
  | _ => exact parseExprImpl_conjunct h hfit hwf (by simp) hparse

/-- A condition holds if all its conjuncts do. -/
theorem Expr.holds_iff_conjuncts (expr : Expr) :
    expr.holds scope columnToTables likeMatch rows = true ↔
      ∀ c ∈ expr.conjuncts, c.holds scope columnToTables likeMatch rows = true := by
  induction expr with
  | and l r ihl ihr =>
    rw [holds, Bool.and_eq_true, ihl, ihr, conjuncts, List.forall_mem_append]
  | _ => simp [conjuncts]

/-- A combination of rows satisfies the clause exactly if it satisfies its filters and its united
columns are equal, provided that the equalities under `NOT` are settled, and only then. -/
theorem parseExpr_holds_iff {tables : List (String × Option String)} {scope : Scope}
    (hfrom : fromClause tables = .ok scope) (columnToTables : String → Option (List String))
    (junk : List Bool → Int) {expr : Expr} (hwf : expr.WellFormed) {state : ParseState}
    (hparse : parseExpr scope columnToTables junk expr {} = .ok state)
    (likeMatch : List UInt8 → List UInt8 → Bool) {rows : TableEntity → List Data}
    (hfit : scope.RowsFit rows) :
    (expr.holds scope columnToTables likeMatch rows = true ↔
        state.Satisfied scope likeMatch rows) ↔
      expr.EqualitiesSettled scope columnToTables likeMatch rows := by
  have h := fromClause_sound hfrom
  obtain ⟨⟨out, state'⟩, hparse, h₁⟩ := bind_eq_ok.mp hparse
  have hstart : ParseState.Satisfied scope likeMatch rows {} := ⟨by simp, by simp⟩
  have hstate : state.Satisfied scope likeMatch rows ↔
      ∀ c ∈ expr.conjuncts, c.Selected scope columnToTables likeMatch rows := by
    rw [← Except.ok.inj h₁, ParseState.satisfied_insertOut,
      parseExprImpl_top h hfit hwf hparse, and_iff_right hstart]
  rw [hstate, expr.holds_iff_conjuncts]
  unfold Expr.EqualitiesSettled Expr.Selected
  constructor
  · intro hiff hplain
    constructor
    · intro hneg c hc hcneg
      refine ((hiff.mp fun c hc => ?_) c hc).2 hcneg
      cases hcn : c.negatesEquality with
      | false => exact hplain c hc hcn
      | true => exact hneg c hc hcn
    · intro heqs c hc _
      exact hiff.mpr (fun c hc => ⟨hplain c hc, heqs c hc⟩) c hc
  · intro hsettled
    constructor
    · intro hall c hc
      exact ⟨fun _ => hall c hc,
        (hsettled fun c hc _ => hall c hc).mp (fun c hc _ => hall c hc) c hc⟩
    · intro hsel c hc
      cases hcn : c.negatesEquality with
      | false => exact (hsel c hc).1 hcn
      | true =>
        exact (hsettled fun c hc => (hsel c hc).1).mpr (fun c hc => (hsel c hc).2) c hc hcn

/-- Without an equality of columns under `NOT` there is nothing to settle. -/
theorem Expr.EqualitiesSettled.of_forall {expr : Expr}
    (h : ∀ c ∈ expr.conjuncts, c.negatesEquality = false) :
    expr.EqualitiesSettled scope columnToTables likeMatch rows := by
  intro _
  constructor
  · intro _ c hc hneg
    simp [h c hc] at hneg
  · intro _ c hc hneg
    simp [h c hc] at hneg

/-- `FROM title AS t, keyword AS k`. -/
def titleKeyword : List (String × Option String) :=
  [("title", some "t"), ("keyword", some "k")]

/-- `t.id = k.id` -/
def sameId : Expr :=
  .compare .equals (.columnRef ⟨some "t", "id"⟩) (.columnRef ⟨some "k", "id"⟩)

/-- `t.id = k.id AND t.production_year IS NULL AND NOT (k.keyword = 'x')` -/
def keywordNotX : Expr :=
  .and (.and sameId (.isNull (.columnRef ⟨some "t", "production_year"⟩)))
    (.not (.compare .equals (.columnRef ⟨some "k", "keyword"⟩) (.literalString [120])))

/-- A title of the given number, and the keyword `y` of number 1. -/
def titleRow (id : Int32) (entity : TableEntity) : List Data :=
  if entity.table = "title" then .int32 id :: List.replicate 11 .null
  else [.int32 1, .varchar [121], .null]

theorem titleRow_fit {scope : Scope} (hfrom : fromClause titleKeyword = .ok scope) (id : Int32) :
    scope.RowsFit (titleRow id) := by
  have hentities : scope.entities = [⟨"title", 0⟩, ⟨"keyword", 0⟩] := by
    rw [← Except.ok.inj hfrom]
    rfl
  intro entity hentity attributes hattributes
  rw [hentities] at hentity
  simp only [List.mem_cons, List.not_mem_nil, or_false] at hentity
  rcases hentity with rfl | rfl
  · rw [← Option.some.inj hattributes]
    simp [titleRow, Data.HasType, List.replicate]
  · rw [← Option.some.inj hattributes]
    simp [titleRow, Data.HasType]

/-- The rows of a title and a keyword of different numbers satisfy `NOT (t.id = k.id)`, but the two
columns are united. -/
theorem not_parseExpr_holds_not_sameId :
    ¬ ∀ scope, fromClause titleKeyword = .ok scope → ∀ state,
      parseExpr scope (fun _ => none) (fun _ => 0) (.not sameId) {} = .ok state →
      ∀ rows, scope.RowsFit rows →
        ((Expr.not sameId).holds scope (fun _ => none) (fun _ _ => false) rows = true ↔
          state.Satisfied scope (fun _ _ => false) rows) := by
  intro h
  have hsat := (h _ rfl _ rfl (titleRow 2) (titleRow_fit rfl 2)).mp (by decide)
  have hunited := hsat.united (0, 12) (by decide)
  revert hunited
  decide

/-- A title and a keyword of one number satisfy the filters of both tables and the equality. -/
theorem parseExpr_holds_iff_keywordNotX :
    ∃ scope state, fromClause titleKeyword = .ok scope ∧
      parseExpr scope (fun _ => none) (fun _ => 0) keywordNotX {} = .ok state ∧
      state.Satisfied scope (fun _ _ => false) (titleRow 1) := by
  have hiff : ∀ scope, fromClause titleKeyword = .ok scope → ∀ state,
      parseExpr scope (fun _ => none) (fun _ => 0) keywordNotX {} = .ok state →
      keywordNotX.holds scope (fun _ => none) (fun _ _ => false) (titleRow 1) = true →
      state.Satisfied scope (fun _ _ => false) (titleRow 1) := by
    intro scope hfrom state hparse hholds
    have hwf : keywordNotX.WellFormed := ⟨⟨trivial, trivial⟩, trivial⟩
    exact ((parseExpr_holds_iff hfrom _ _ hwf hparse _ (titleRow_fit hfrom 1)).mpr
      (.of_forall (by decide))).mp hholds
  exact ⟨_, _, rfl, rfl, hiff _ rfl _ rfl (by decide)⟩

end HashJoin
