import HashJoin.CSVRecords
import HashJoin.FromCSV
import HashJoin.ToColumnarProof

/-!
# Loading the records of a CSV file

What `on_field` makes of the fields of a record, and of all records of a file. Nothing compares the
width of the records with the number of attributes: a record is added when a field arrives for the
last attribute. The fields of a shorter record stay pending, those of a longer one past the last
attribute read past the attributes unless they are empty, and a record that is added while fields
are pending is too long for the table.
-/

namespace HashJoin

open Interleave

/-! ## The columns under construction -/

/-- The column after its cells have been pushed. -/
def InnerColumnBase.build : DataType → List Data → InnerColumnBase
  | .int32, cells => .int32 ((cells.map Data.getInt32).foldl InnerColumn.push {})
  | .int64, cells => .int64 ((cells.map Data.getInt64).foldl InnerColumn.push {})
  | .fp64, cells =>
    .fp64 ((cells.map fun cell => cell.getFp64.map Fp64.mk).foldl InnerColumn.push {})
  | .varchar, cells => .varchar ((cells.map Data.getVarchar).foldl InnerStringColumn.push {})

theorem pushField_build (type : DataType) (cells : List Data) (field : Data) :
    pushField type field (.build type cells) = .ok (.build type (cells ++ [field])) := by
  cases type <;> simp [pushField, InnerColumnBase.build]

/-- One column per attribute, made of its type and what belongs to it. -/
def perColumn {β γ : Type} (mk : DataType → β → γ) (attributes : List DataType)
    (content : Nat → β) : List γ :=
  attributes.zipIdx.map fun x => mk x.1 (content x.2)

section Columns

variable {β γ : Type} {mk : DataType → β → γ} {attributes : List DataType} {content : Nat → β}

theorem getElem?_perColumn (i : Nat) : (perColumn mk attributes content)[i]? =
    attributes[i]?.map fun type => mk type (content i) := by
  simp [perColumn, Function.comp_def]

theorem set_perColumn {k : Nat} {type : DataType} (hk : attributes[k]? = some type) (b : β) :
    (perColumn mk attributes content).set k (mk type b) =
      perColumn mk attributes (Function.update content k b) := by
  refine List.ext_getElem? fun i => ?_
  rw [List.getElem?_set, getElem?_perColumn, getElem?_perColumn]
  by_cases hi : k = i
  · subst hi
    have hlt : k < (perColumn mk attributes content).length := by
      simpa [perColumn] using (List.getElem?_eq_some_iff.mp hk).1
    simp [hk, hlt]
  · rw [if_neg hi, Function.update_of_ne (Ne.symm hi)]

theorem perColumn_congr {content' : Nat → β}
    (h : ∀ i < attributes.length, content i = content' i) :
    perColumn mk attributes content = perColumn mk attributes content' := by
  refine List.ext_getElem? fun i => ?_
  rw [getElem?_perColumn, getElem?_perColumn]
  cases hi : attributes[i]? with
  | none => rfl
  | some type => rw [h i (List.getElem?_eq_some_iff.mp hi).1]

end Columns

abbrev buildColumns : List DataType → (Nat → List Data) → List InnerColumnBase :=
  perColumn InnerColumnBase.build

/-- The loop of `add_record` from column `k` on. -/
theorem foldlM_addField {attributes : List DataType} (cells : Nat → List Data)
    (record : List Data) (k : Nat) (hlen : k + record.length ≤ attributes.length) :
    ∃ cells', (record.zipIdx k).foldlM (addField attributes) (buildColumns attributes cells) =
        .ok (buildColumns attributes cells') ∧
      ∀ i, cells' i = if k ≤ i then cells i ++ record[i - k]?.toList else cells i := by
  induction record generalizing k cells with
  | nil => exact ⟨cells, rfl, by simp⟩
  | cons field record ih =>
    rw [List.length_cons] at hlen
    have hk : attributes[k]? = some attributes[k] := List.getElem?_eq_getElem (by omega)
    have hstep : addField attributes (buildColumns attributes cells) (field, k) =
        .ok (buildColumns attributes (Function.update cells k (cells k ++ [field]))) := by
      unfold addField
      simp only [hk, getElem?_perColumn, Option.map_some, pushField_build, ok_bind,
        set_perColumn hk]
    obtain ⟨cells', hrun, hcells⟩ :=
      ih (Function.update cells k (cells k ++ [field])) (k + 1) (by omega)
    refine ⟨cells', ?_, fun i => ?_⟩
    · rw [List.zipIdx_cons, List.foldlM_cons, hstep, ok_bind, hrun]
    · rw [hcells i]
      rcases Nat.lt_trichotomy i k with h | rfl | h
      · rw [if_neg (by omega), if_neg (by omega), Function.update_of_ne h.ne]
      · simp
      · have hi : i - k = i - (k + 1) + 1 := by omega
        rw [if_pos (by omega), if_pos (by omega), Function.update_of_ne h.ne', hi,
          List.getElem?_cons_succ]

/-- The columns of the rows so far. -/
structure InnerTable.Holds (attributes : List DataType) (rows : List (List Data))
    (table : InnerTable) : Prop where
  numRows : table.rows = rows.length
  columns : table.columns = buildColumns attributes (Table.column ⟨rows, attributes⟩)

namespace InnerTable.Holds

variable {attributes : List DataType} {rows : List (List Data)} {table : InnerTable}

theorem empty (attributes : List DataType) :
    Holds attributes [] { columns := attributes.map InnerColumnBase.empty } := by
  refine ⟨rfl, List.ext_getElem? fun i => ?_⟩
  rw [getElem?_perColumn, List.getElem?_map]
  congr 1
  funext type
  cases type <;> rfl

/-- A record with one field per attribute. -/
theorem addRecord (h : table.Holds attributes rows) {record : List Data}
    (hlen : record.length = attributes.length) :
    ∃ table', HashJoin.addRecord attributes table record = .ok table' ∧
      table'.Holds attributes (rows ++ [record]) := by
  obtain ⟨cells, hrun, hcells⟩ := foldlM_addField (Table.column ⟨rows, attributes⟩)
    record 0 (by omega : 0 + record.length ≤ attributes.length)
  refine ⟨_, by rw [HashJoin.addRecord, h.columns, hrun, ok_bind], ?_, ?_⟩
  · simp [h.numRows]
  · apply perColumn_congr
    intro i hi
    rw [hcells i]
    simp [Table.column, hlen, hi]

/-- A longer record. -/
theorem addRecord_long (h : table.Holds attributes rows) {record : List Data}
    (hlen : attributes.length < record.length) :
    HashJoin.addRecord attributes table record = .error .outOfRange := by
  obtain ⟨front, field, back, rfl, hfront⟩ : ∃ front field back,
      record = front ++ field :: back ∧ front.length = attributes.length := by
    refine ⟨record.take attributes.length, record[attributes.length],
      record.drop (attributes.length + 1), ?_, by simp; omega⟩
    rw [← List.drop_eq_getElem_cons hlen, List.take_append_drop]
  obtain ⟨cells, hrun, -⟩ := foldlM_addField (Table.column ⟨rows, attributes⟩)
    front 0 (by omega : 0 + front.length ≤ attributes.length)
  have hstep : addField attributes (buildColumns attributes cells) (field, attributes.length) =
      .error .outOfRange := by
    unfold addField
    rw [List.getElem?_eq_none le_rfl]
  unfold HashJoin.addRecord
  rw [h.columns, List.zipIdx_append, List.foldlM_append, hrun, ok_bind,
    List.zipIdx_cons, hfront, Nat.zero_add, List.foldlM_cons, hstep]
  rfl

end InnerTable.Holds

/-! ## The fields of a record -/

/-- The value of a field. -/
def readCell (stod : Stod) (type : DataType) (bytes : List UInt8) : Except Fault Data :=
  if bytes = [] then .ok .null else parseValue stod type bytes

/-- The values of the fields, as far as there are attributes. -/
def readFields (stod : Stod) : List DataType → List (List UInt8) → Except Fault (List Data)
  | [], _ => .ok []
  | _ :: _, [] => .ok []
  | type :: attributes, field :: fields => do
    let value ← readCell stod type field
    let values ← readFields stod attributes fields
    .ok (value :: values)

/-- The values of the fields, as far as there are attributes, can be read. -/
def Readable (stod : Stod) (attributes : List DataType) (fields : List (List UInt8)) : Prop :=
  ∃ values, readFields stod attributes fields = .ok values

/-- A record is added while fields of another one are pending, or a field past the last attribute is
not empty. Both read past the attributes. -/
def Overruns (attributes : List DataType) (pending : Bool) (fields : List (List UInt8)) : Prop :=
  pending = true ∧ 0 < attributes.length ∧ attributes.length ≤ fields.length ∨
    ∃ field ∈ fields.drop attributes.length, field ≠ []

section Fields

variable {stod : Stod} {attributes : List DataType}

theorem Overruns.le {pending : Bool} {fields : List (List UInt8)}
    (h : Overruns attributes pending fields) : attributes.length ≤ fields.length := by
  rcases h with ⟨-, -, hle⟩ | ⟨field, hf, -⟩
  · exact hle
  · have := List.length_pos_of_mem hf
    rw [List.length_drop] at this
    omega

@[simp] theorem readFields_nil : readFields stod attributes [] = .ok [] := by
  cases attributes <;> rfl

theorem orThrow_error {what : String} {value : Option Data} {e : Fault}
    (h : orThrow what value = .error e) : e = .runtimeError what := by
  cases value with
  | some value => cases h
  | none =>
    cases h
    rfl

theorem orThrow_ok {α : Type} {what : String} {mk : α → Data} {x : Option α} {value : Data}
    (h : orThrow what (x.map mk) = .ok value) : ∃ v, value = mk v := by
  cases x with
  | some v =>
    cases h
    exact ⟨v, rfl⟩
  | none => cases h

theorem parseValue_error {type : DataType} {bytes : List UInt8} {e : Fault}
    (h : parseValue stod type bytes = .error e) : ∃ what, e = .runtimeError what := by
  cases type with
  | int32 => exact ⟨_, orThrow_error h⟩
  | int64 => exact ⟨_, orThrow_error h⟩
  | fp64 => exact ⟨_, orThrow_error h⟩
  | varchar => cases h

theorem parseValue_hasType {type : DataType} {bytes : List UInt8} {value : Data}
    (h : parseValue stod type bytes = .ok value) : value.HasType type := by
  cases type with
  | int32 =>
    obtain ⟨v, rfl⟩ := orThrow_ok h
    rfl
  | int64 =>
    obtain ⟨v, rfl⟩ := orThrow_ok h
    rfl
  | fp64 =>
    obtain ⟨v, rfl⟩ := orThrow_ok h
    rfl
  | varchar =>
    cases h
    rfl

theorem readCell_error {type : DataType} {bytes : List UInt8} {e : Fault}
    (h : readCell stod type bytes = .error e) : ∃ what, e = .runtimeError what := by
  unfold readCell at h
  split at h
  · cases h
  · exact parseValue_error h

/-- Fields that cannot be read make `on_field` throw. -/
theorem readFields_error {fields : List (List UInt8)} {e : Fault}
    (h : readFields stod attributes fields = .error e) : ∃ what, e = .runtimeError what := by
  fun_induction readFields stod attributes fields with
  | case1 => cases h
  | case2 => cases h
  | case3 type attributes field fields ih =>
    cases hv : readCell stod type field with
    | error e' =>
      rw [hv] at h
      cases h
      exact readCell_error hv
    | ok value =>
      rw [hv, ok_bind] at h
      cases hvs : readFields stod attributes fields with
      | error e' =>
        rw [hvs] at h
        cases h
        exact ih hvs
      | ok values =>
        rw [hvs] at h
        cases h

theorem readCell_hasType {type : DataType} {bytes : List UInt8} {value : Data}
    (h : readCell stod type bytes = .ok value) : value.HasType type := by
  unfold readCell at h
  split at h
  · cases h
    trivial
  · exact parseValue_hasType h

/-- The values have the types of their attributes. -/
theorem readFields_hasType {fields : List (List UInt8)} {values : List Data}
    (hlen : fields.length = attributes.length)
    (h : readFields stod attributes fields = .ok values) :
    List.Forall₂ Data.HasType values attributes := by
  induction attributes generalizing fields values with
  | nil =>
    obtain rfl := List.length_eq_zero_iff.mp hlen
    cases h
    exact .nil
  | cons type attributes ih =>
    obtain ⟨field, fields, rfl⟩ := List.exists_cons_of_length_eq_add_one hlen
    obtain ⟨value, hvalue, h⟩ := bind_eq_ok.mp h
    obtain ⟨rest, hrest, h⟩ := bind_eq_ok.mp h
    cases h
    exact .cons (readCell_hasType hvalue) (ih (by simpa using hlen) hrest)

theorem length_readFields {fields : List (List UInt8)} {values : List Data}
    (h : readFields stod attributes fields = .ok values) :
    values.length = min attributes.length fields.length := by
  fun_induction readFields stod attributes fields generalizing values with
  | case1 =>
    cases h
    simp
  | case2 =>
    cases h
    simp
  | case3 type attributes field fields ih =>
    obtain ⟨value, -, h⟩ := bind_eq_ok.mp h
    obtain ⟨rest, hrest, h⟩ := bind_eq_ok.mp h
    cases h
    simp [ih hrest]

/-! ## The calls for a record -/

/-- Fields past the last attribute: an empty one adds a NULL to the record. -/
def strays (fields : List (List UInt8)) (parser : TableParser) : Except Fault TableParser :=
  if ∀ field ∈ fields, field = [] then
    .ok { parser with lastRecord := parser.lastRecord ++ List.replicate fields.length .null }
  else .error .outOfRange

theorem strays_ok {fields : List (List UInt8)} (h : ∀ field ∈ fields, field = [])
    (parser : TableParser) : strays fields parser =
      .ok { parser with
        lastRecord := parser.lastRecord ++ List.replicate fields.length .null } := if_pos h

theorem strays_error {fields : List (List UInt8)} (h : ∃ field ∈ fields, field ≠ [])
    (parser : TableParser) : strays fields parser = .error .outOfRange :=
  if_neg fun h' => by
    obtain ⟨field, hf, hne⟩ := h
    exact hne (h' field hf)

/-- What the calls for some fields of a record leave, when they return: the record is pending unless
there were as many fields as attributes. -/
def Left (attributes : List DataType) (fields : List (List UInt8)) (parser : TableParser) : Prop :=
  (∃ rows, parser.fullTable.Holds attributes rows) ∧
    (fields ≠ [] → (parser.lastRecord ≠ [] ↔ fields.length ≠ attributes.length))

variable {header : Bool} {row : Nat} (hdata : ¬ (header = true ∧ row = 0))
include hdata

/-- `on_field` below the header. -/
theorem onField_data (parser : TableParser) (col : Nat) (bytes : List UInt8) :
    onField stod attributes header parser ⟨col, row, bytes⟩ =
      (fieldValue stod attributes ⟨col, row, bytes⟩ >>= fun value =>
        if col + 1 = attributes.length then
          addRecord attributes parser.fullTable (parser.lastRecord ++ [value]) >>= fun table =>
            .ok { lastRecord := [], fullTable := table }
        else .ok { parser with lastRecord := parser.lastRecord ++ [value] }) := by
  have hrow : ¬ ((row : Int) + (if header then -1 else 0) = -1) := by
    cases header with
    | true =>
      have : row ≠ 0 := fun h => hdata ⟨rfl, h⟩
      simp only [if_true]
      omega
    | false =>
      simp only [Bool.false_eq_true, if_false]
      omega
  unfold onField
  exact if_neg hrow

/-- A field with an attribute, but not the last one. -/
theorem onField_inner (parser : TableParser) {col : Nat} (hcol : col + 1 < attributes.length)
    (bytes : List UInt8) :
    onField stod attributes header parser ⟨col, row, bytes⟩ =
      (readCell stod attributes[col] bytes >>= fun value =>
        .ok { parser with lastRecord := parser.lastRecord ++ [value] }) := by
  have hvalue : fieldValue stod attributes ⟨col, row, bytes⟩ =
      readCell stod attributes[col] bytes := by
    simp [fieldValue, readCell, show col < attributes.length by omega]
  rw [onField_data hdata, hvalue]
  simp only [if_neg hcol.ne]

/-- The last field of an attribute: the record is added. -/
theorem onField_last (parser : TableParser) {col : Nat} (hcol : col + 1 = attributes.length)
    (bytes : List UInt8) :
    onField stod attributes header parser ⟨col, row, bytes⟩ =
      (readCell stod attributes[col] bytes >>= fun value =>
        addRecord attributes parser.fullTable (parser.lastRecord ++ [value]) >>= fun table =>
          .ok { lastRecord := [], fullTable := table }) := by
  have hvalue : fieldValue stod attributes ⟨col, row, bytes⟩ =
      readCell stod attributes[col] bytes := by
    simp [fieldValue, readCell, show col < attributes.length by omega]
  rw [onField_data hdata, hvalue]
  simp only [if_pos hcol]

/-- A field past the last attribute. -/
theorem onField_stray (parser : TableParser) {col : Nat} (hcol : attributes.length ≤ col)
    (bytes : List UInt8) :
    onField stod attributes header parser ⟨col, row, bytes⟩ =
      if bytes = [] then .ok { parser with lastRecord := parser.lastRecord ++ [.null] }
      else .error .outOfRange := by
  have hne : col + 1 ≠ attributes.length := by omega
  rw [onField_data hdata, fieldValue, List.getElem?_eq_none hcol]
  by_cases hb : bytes = []
  · rw [if_pos hb, if_pos hb, ok_bind, if_neg hne]
  · rw [if_neg hb, if_neg hb]
    rfl

theorem foldlM_strays (fields : List (List UInt8)) {col : Nat} (hcol : attributes.length ≤ col)
    (parser : TableParser) :
    (recordCalls row col fields).foldlM (onField stod attributes header) parser =
      strays fields parser := by
  induction fields generalizing col parser with
  | nil => simp [recordCalls, strays, pure, Except.pure]
  | cons field fields ih =>
    rw [CSVParser.recordCalls_cons, List.foldlM_cons, onField_stray hdata parser hcol]
    by_cases hf : field = []
    · rw [if_pos hf, ok_bind, ih (by omega)]
      simp [strays, hf, List.replicate_succ]
    · rw [if_neg hf, strays, if_neg fun h => hf (h field (by simp))]
      rfl

/-- Fields before the last attribute. -/
theorem foldlM_inner (fields : List (List UInt8)) {col : Nat}
    (hlen : col + fields.length < attributes.length) (parser : TableParser) :
    (recordCalls row col fields).foldlM (onField stod attributes header) parser =
      (readFields stod (attributes.drop col) fields >>= fun values =>
        .ok { parser with lastRecord := parser.lastRecord ++ values }) := by
  induction fields generalizing col parser with
  | nil => simp [recordCalls, pure, Except.pure]
  | cons field fields ih =>
    rw [List.length_cons] at hlen
    rw [CSVParser.recordCalls_cons, List.foldlM_cons, onField_inner hdata parser (by omega),
      List.drop_eq_getElem_cons (by omega), readFields]
    cases readCell stod attributes[col] field with
    | error e => rfl
    | ok value =>
      rw [ok_bind, ok_bind, ok_bind, ih (by omega)]
      cases readFields stod (attributes.drop (col + 1)) fields with
      | error e => rfl
      | ok values => simp [List.append_assoc]

/-- Fields up to the last attribute or past it. -/
theorem foldlM_full (fields : List (List UInt8)) {col : Nat} (hcol : col < attributes.length)
    (hlen : attributes.length ≤ col + fields.length) (parser : TableParser) :
    (recordCalls row col fields).foldlM (onField stod attributes header) parser =
      (readFields stod (attributes.drop col) fields >>= fun values =>
        addRecord attributes parser.fullTable (parser.lastRecord ++ values) >>= fun table =>
          strays (fields.drop (attributes.length - col)) { fullTable := table }) := by
  induction fields generalizing col parser with
  | nil =>
    rw [List.length_nil] at hlen
    omega
  | cons field fields ih =>
    rw [List.length_cons] at hlen
    rw [CSVParser.recordCalls_cons, List.foldlM_cons, List.drop_eq_getElem_cons (by omega),
      readFields]
    by_cases hlast : col + 1 = attributes.length
    · have hone : attributes.length - col = 1 := by omega
      have hnil : attributes.drop (col + 1) = [] := List.drop_eq_nil_iff.mpr hlast.ge
      rw [onField_last hdata parser hlast, hone, List.drop_one, List.tail_cons, hnil, readFields]
      cases readCell stod attributes[col] field with
      | error e => rfl
      | ok value =>
        rw [ok_bind, ok_bind, ok_bind, ok_bind]
        cases addRecord attributes parser.fullTable (parser.lastRecord ++ [value]) with
        | error e => rfl
        | ok table => exact foldlM_strays hdata fields hlast.ge _
    · have hdrop : (field :: fields).drop (attributes.length - col) =
          fields.drop (attributes.length - (col + 1)) := by
        rw [show attributes.length - col = attributes.length - (col + 1) + 1 by omega,
          List.drop_succ_cons]
      rw [onField_inner hdata parser (by omega), hdrop]
      cases readCell stod attributes[col] field with
      | error e => rfl
      | ok value =>
        rw [ok_bind, ok_bind, ok_bind, ih (by omega) (by omega)]
        cases readFields stod (attributes.drop (col + 1)) fields with
        | error e => rfl
        | ok values => simp [List.append_assoc]

section Record

variable {rows : List (List Data)} {parser : TableParser}
  (h : parser.fullTable.Holds attributes rows) {fields : List (List UInt8)}
include h

theorem foldlM_unreadable (hread : ¬ Readable stod attributes fields) : ∃ what,
    (recordCalls row 0 fields).foldlM (onField stod attributes header) parser =
      .error (.runtimeError what) := by
  cases hvalues : readFields stod attributes fields with
  | ok values => exact absurd ⟨values, hvalues⟩ hread
  | error e =>
    obtain ⟨what, rfl⟩ := readFields_error hvalues
    refine ⟨what, ?_⟩
    rcases Nat.lt_or_ge fields.length attributes.length with hlt | hge
    · rw [foldlM_inner hdata fields (by omega), List.drop_zero, hvalues]
      rfl
    · have hpos : 0 < attributes.length := by
        by_contra hzero
        obtain rfl : attributes = [] := List.length_eq_zero_iff.mp (by omega)
        cases hvalues
      rw [foldlM_full hdata fields hpos (by omega), List.drop_zero, hvalues]
      rfl

theorem foldlM_overruns (hread : Readable stod attributes fields)
    (hover : Overruns attributes (parser.lastRecord ≠ []) fields) :
    (recordCalls row 0 fields).foldlM (onField stod attributes header) parser =
      .error .outOfRange := by
  obtain ⟨values, hvalues⟩ := hread
  have hlen := length_readFields hvalues
  rcases Nat.eq_zero_or_pos attributes.length with hzero | hpos
  · rw [foldlM_strays hdata fields (by omega)]
    refine strays_error ?_ parser
    rcases hover with ⟨-, hpos, -⟩ | hstray
    · omega
    · rwa [hzero, List.drop_zero] at hstray
  · have hge := hover.le
    rw [foldlM_full hdata fields hpos (by omega), List.drop_zero, hvalues, ok_bind]
    by_cases hlast : parser.lastRecord = []
    · obtain ⟨table, hadd, -⟩ := h.addRecord (by omega : values.length = attributes.length)
      rw [hlast, List.nil_append, hadd, ok_bind]
      exact strays_error (hover.resolve_left fun h' => absurd h'.1 (by simp [hlast])) _
    · have hpending : 0 < parser.lastRecord.length := List.length_pos_iff.mpr hlast
      rw [h.addRecord_long (by rw [List.length_append]; omega)]
      rfl

theorem foldlM_returns (hread : Readable stod attributes fields)
    (hover : ¬ Overruns attributes (parser.lastRecord ≠ []) fields) : ∃ parser',
    (recordCalls row 0 fields).foldlM (onField stod attributes header) parser = .ok parser' ∧
      Left attributes fields parser' := by
  obtain ⟨values, hvalues⟩ := hread
  have hlen := length_readFields hvalues
  have hstrays : ∀ field ∈ fields.drop attributes.length, field = [] := by
    intro field hf
    by_contra hne
    exact hover (.inr ⟨field, hf, hne⟩)
  rcases Nat.eq_zero_or_pos attributes.length with hzero | hpos
  · rw [hzero, List.drop_zero] at hstrays
    rw [foldlM_strays hdata fields (by omega), strays_ok hstrays]
    refine ⟨_, rfl, ⟨rows, h⟩, fun hne => ?_⟩
    have := List.length_pos_iff.mpr hne
    simp [hzero, hne]
  · rcases Nat.lt_or_ge fields.length attributes.length with hlt | hge
    · rw [foldlM_inner hdata fields (by omega), List.drop_zero, hvalues, ok_bind]
      refine ⟨_, rfl, ⟨rows, h⟩, fun hne => ?_⟩
      have hsome : values ≠ [] := by
        rw [← List.length_pos_iff] at hne ⊢
        omega
      simp [hsome, hlt.ne]
    · have hlast : parser.lastRecord = [] := by
        by_contra hne
        exact hover (.inl ⟨by simpa using hne, hpos, hge⟩)
      obtain ⟨table, hadd, htable⟩ := h.addRecord (by omega : values.length = attributes.length)
      rw [foldlM_full hdata fields hpos (by omega), List.drop_zero, hvalues, ok_bind, hlast,
        List.nil_append, hadd, ok_bind, Nat.sub_zero, strays_ok hstrays]
      refine ⟨_, rfl, ⟨_, htable⟩, fun _ => ?_⟩
      rw [List.nil_append, Ne, List.replicate_eq_nil_iff, List.length_drop]
      omega

/-- One field per attribute, and none pending. -/
theorem foldlM_exact (hlen : fields.length = attributes.length) (hpos : 0 < attributes.length)
    (hlast : parser.lastRecord = []) {values : List Data}
    (hvalues : readFields stod attributes fields = .ok values) : ∃ table,
    (recordCalls row 0 fields).foldlM (onField stod attributes header) parser =
      .ok { fullTable := table } ∧ table.Holds attributes (rows ++ [values]) := by
  have hcount := length_readFields hvalues
  obtain ⟨table, hadd, htable⟩ := h.addRecord (by omega : values.length = attributes.length)
  have hdrop : fields.drop attributes.length = [] := List.drop_eq_nil_iff.mpr hlen.le
  refine ⟨table, ?_, htable⟩
  rw [foldlM_full hdata fields hpos (by omega), List.drop_zero, hvalues, ok_bind, hlast,
    List.nil_append, hadd, ok_bind, Nat.sub_zero, hdrop]
  rfl

end Record

end Fields

/-! ## The calls for a file -/

/-- The fields of a record that the parser makes calls for. -/
def seenFields (w : Nat) (closed : Bool) (record : List (List UInt8))
    (rest : List (List (List UInt8))) : List (List UInt8) :=
  if Complete w closed record rest then record else record.dropLast

/-- The records are read up to one that throws: its seen fields cannot be read, or the parser
rejects it after them. -/
def Rejected (stod : Stod) (attributes : List DataType) (w : Nat) (closed : Bool) :
    (pending : Bool) → List (List (List UInt8)) → Prop
  | _, [] => closed = false
  | pending, record :: rest =>
    ¬ Readable stod attributes (seenFields w closed record rest) ∨
      ¬ Overruns attributes pending (seenFields w closed record rest) ∧
        (Complete w closed record rest →
          Rejected stod attributes w closed (record.length ≠ attributes.length) rest)

/-- What `from_csv` makes of the result of the parser. -/
def accept (ok : Bool) (parser : TableParser) : Except Fault TableParser :=
  if ok then .ok parser else .error (.runtimeError "CSV parse error")

section Run

variable {stod : Stod} {attributes : List DataType} {header : Bool} {w row : Nat} {closed : Bool}
  {rows : List (List Data)} {parser : TableParser}

/-- The calls for records and the result of the parser. -/
def runRecords (stod : Stod) (attributes : List DataType) (header : Bool) (w row : Nat)
    (closed : Bool) (records : List (List (List UInt8))) (parser : TableParser) :
    Except Fault TableParser :=
  (recordRun w row closed records).1.foldlM (onField stod attributes header) parser >>=
    accept (recordRun w row closed records).2

theorem runRecords_cons (record : List (List UInt8)) (rest : List (List (List UInt8))) :
    runRecords stod attributes header w row closed (record :: rest) parser =
      ((recordCalls row 0 (seenFields w closed record rest)).foldlM
        (onField stod attributes header) parser >>= fun parser =>
          if Complete w closed record rest then
            runRecords stod attributes header w (row + 1) closed rest parser
          else .error (.runtimeError "CSV parse error")) := by
  unfold runRecords seenFields
  rw [recordRun]
  by_cases hc : Complete w closed record rest
  · simp only [if_pos hc, List.foldlM_append, bind_assoc]
  · simp only [if_neg hc]
    rfl

variable (stod) (w) (closed) in
/-- The run of rejected records throws, and that of others does not. -/
theorem runRecords_cases {records : List (List (List UInt8))}
    (hdata : ¬ (header = true ∧ row = 0)) (hfields : ∀ record ∈ records, record ≠ [])
    (hclosed : closed = true ∨ records ≠ []) (h : parser.fullTable.Holds attributes rows) :
    (Rejected stod attributes w closed (parser.lastRecord ≠ []) records ∧
      ∃ what, runRecords stod attributes header w row closed records parser =
        .error (.runtimeError what)) ∨
    ¬ Rejected stod attributes w closed (parser.lastRecord ≠ []) records ∧
      (runRecords stod attributes header w row closed records parser = .error .outOfRange ∨
        ∃ parser' rows',
          runRecords stod attributes header w row closed records parser = .ok parser' ∧
          parser'.fullTable.Holds attributes rows') := by
  induction records generalizing row rows parser with
  | nil =>
    have htrue : closed = true := hclosed.resolve_right (by simp)
    refine .inr ⟨by simp [Rejected, htrue], .inr ⟨parser, rows, ?_, h⟩⟩
    simp [runRecords, recordRun, accept, pure, Except.pure]
  | cons record rest ih =>
    rw [runRecords_cons, Rejected]
    by_cases hread : Readable stod attributes (seenFields w closed record rest)
    · by_cases hover : Overruns attributes (parser.lastRecord ≠ [])
          (seenFields w closed record rest)
      · rw [foldlM_overruns hdata h hread hover]
        exact .inr ⟨fun h' => h'.elim (fun hne => hne hread) fun h' => h'.1 hover, .inl rfl⟩
      · obtain ⟨parser', hrun, ⟨rows', h'⟩, hleft⟩ := foldlM_returns hdata h hread hover
        rw [hrun, ok_bind]
        by_cases hc : Complete w closed record rest
        · have hpending : decide (parser'.lastRecord ≠ []) =
              decide (record.length ≠ attributes.length) := by
            rw [seenFields, if_pos hc] at hleft
            exact decide_eq_decide.mpr (hleft (hfields record (by simp)))
          have hrest := ih (by simp : ¬ (header = true ∧ row + 1 = 0))
            (fun r hr => hfields r (by simp [hr])) hc.2 h'
          rw [hpending] at hrest
          rw [if_pos hc]
          refine hrest.imp (And.imp_left fun hr => .inr ⟨hover, fun _ => hr⟩)
            (And.imp_left fun hr h'' => ?_)
          exact hr ((h''.resolve_left fun hne => hne hread).2 hc)
        · rw [if_neg hc]
          exact .inl ⟨.inr ⟨hover, fun h' => absurd h' hc⟩, _, rfl⟩
    · obtain ⟨what, hrun⟩ := foldlM_unreadable hdata h hread
      rw [hrun]
      exact .inl ⟨.inl hread, what, rfl⟩

variable (stod) (w) (closed) in
/-- Records with one field per attribute are loaded as rows, or something throws. -/
theorem runRecords_full {records : List (List (List UInt8))}
    (hdata : ¬ (header = true ∧ row = 0))
    (hfields : ∀ record ∈ records, record.length = attributes.length)
    (hpos : 0 < attributes.length) (h : parser.fullTable.Holds attributes rows)
    (hlast : parser.lastRecord = []) :
    (∃ what, runRecords stod attributes header w row closed records parser =
      .error (.runtimeError what)) ∨
    ∃ parser' rows', runRecords stod attributes header w row closed records parser = .ok parser' ∧
      records.mapM (readFields stod attributes) = .ok rows' ∧
      parser'.fullTable.Holds attributes (rows ++ rows') := by
  induction records generalizing row rows parser with
  | nil =>
    refine .inr ⟨parser, [], rfl, rfl, ?_⟩
    rwa [List.append_nil]
  | cons record rest ih =>
    have hlen := hfields record (by simp)
    rw [runRecords_cons]
    by_cases hread : Readable stod attributes (seenFields w closed record rest)
    · by_cases hc : Complete w closed record rest
      · rw [seenFields, if_pos hc] at hread ⊢
        obtain ⟨values, hvalues⟩ := hread
        obtain ⟨table, hrun, htable⟩ := foldlM_exact hdata h hlen hpos hlast hvalues
        rw [hrun, ok_bind, if_pos hc]
        have hrest : (TableParser.mk [] table).fullTable.Holds attributes (rows ++ [values]) :=
          htable
        rcases ih (by simp : ¬ (header = true ∧ row + 1 = 0))
          (fun r hr => hfields r (by simp [hr])) hrest rfl with
          hthrow | ⟨parser', rows', hok, hrows, hholds⟩
        · exact .inl hthrow
        · refine .inr ⟨parser', values :: rows', hok, ?_, by simpa using hholds⟩
          rw [List.mapM_cons, hvalues, ok_bind, hrows]
          rfl
      · left
        have hshort : (seenFields w closed record rest).length < attributes.length := by
          unfold seenFields
          rw [if_neg hc, List.length_dropLast]
          omega
        have hover : ¬ Overruns attributes (parser.lastRecord ≠ [])
            (seenFields w closed record rest) := fun hover => absurd hover.le (by omega)
        obtain ⟨parser', hrun, -⟩ := foldlM_returns hdata h hread hover
        rw [hrun, ok_bind, if_neg hc]
        exact ⟨_, rfl⟩
    · left
      obtain ⟨what, hrun⟩ := foldlM_unreadable hdata h hread
      rw [hrun]
      exact ⟨what, rfl⟩

/-- The calls for the header have no effect. -/
theorem foldlM_header (fields : List (List UInt8)) (col : Nat) :
    (recordCalls 0 col fields).foldlM (onField stod attributes true) parser = .ok parser := by
  induction fields generalizing col with
  | nil => simp [recordCalls, pure, Except.pure]
  | cons field fields ih =>
    have hstep : onField stod attributes true parser ⟨col, 0, field⟩ = .ok parser := rfl
    rw [CSVParser.recordCalls_cons, List.foldlM_cons, hstep, ok_bind, ih]

variable (stod) (header) (closed) (parser) in
/-- The run of a file is that of its records below the header. -/
theorem runRecords_below {records : List (List (List UInt8))} (hne : records ≠ [])
    (hw : w = (records.headD []).length) :
    ∃ row, ¬ (header = true ∧ row = 0) ∧
      runRecords stod attributes header w 0 closed records parser =
        if closed = true ∨ records.drop (if header then 1 else 0) ≠ [] then
          runRecords stod attributes header w row closed
            (records.drop (if header then 1 else 0)) parser
        else .error (.runtimeError "CSV parse error") := by
  cases header with
  | false =>
    refine ⟨0, by simp, ?_⟩
    simp [hne]
  | true =>
    obtain ⟨record, rest, rfl⟩ := List.exists_cons_of_ne_nil hne
    refine ⟨1, by simp, ?_⟩
    have hc : Complete w closed record rest ↔ closed = true ∨ rest ≠ [] :=
      and_iff_right (by simp [hw])
    rw [runRecords_cons, foldlM_header, ok_bind]
    simp only [hc, if_true, List.drop_one, List.tail_cons, Nat.zero_add]

end Run

end HashJoin
