import HashJoin.PageFormat
import HashJoin.Value

/-!
# Scanning an input column

`build_column_inserter` turns a column of pages into a `column_t`. A null-free `INT32` column is
only pointed to; any other is copied to buffers, a string column as references to its strings.
-/

namespace HashJoin

open Bytes Chunks

/-- The buffers written so far and `curbuf`. -/
structure Buffers where
  done : List (List Value) := []
  curbuf : List Value := []

/-- Adds a value to `curbuf`, which is pushed when it is full. -/
def Buffers.push (b : Buffers) (v : Value) : Buffers :=
  let curbuf := b.curbuf ++ [v]
  if curbuf.length = 1024 then ⟨b.done ++ [curbuf], []⟩ else ⟨b.done, curbuf⟩

def Buffers.close (b : Buffers) : List (List Value) := Chunks.close b.done b.curbuf

/-- The loop over the rows of a page: `remaining` rows from row `i` on, of which the next
non-NULL one has the index `curNvRow`. -/
def scanRows (bit : Nat → Bool) (value null : Nat → Value) :
    (remaining i curNvRow : Nat) → Buffers → Buffers
  | 0, _, _, b => b
  | remaining + 1, i, curNvRow, b =>
    if bit i then scanRows bit value null remaining (i + 1) (curNvRow + 1) (b.push (value curNvRow))
    else scanRows bit value null remaining (i + 1) curNvRow (b.push (null i))

/-- A page of an `INT32` column; `junk` is what a NULL row leaves in `val`. -/
def scanInt32Page (junk : Nat → Int32) (b : Buffers) (p : Page) : Buffers :=
  let nr := p.u16 0
  scanRows (getBitmap (Page.bitmap p nr)) (fun cur => Value.int32 (p.read Int32 (4 + 4 * cur)))
    (fun i => Value.null (junk i)) nr 0 0 b

/-- Page `idx` of a `VARCHAR` column. -/
def scanVarcharPage (tableId colId idx : Nat) (b : Buffers) (p : Page) : Buffers :=
  let nr := p.u16 0
  if nr = 0xffff then b.push (Value.str tableId colId idx 4)
  else if nr = 0xfffe then b
  else
    scanRows (getBitmap (Page.bitmap p nr)) (fun cur => Value.str tableId colId idx (4 + 2 * cur))
      (fun _ => Value.str tableId colId idx 0xFFFF) nr 0 0 b

/-- Whether some page has NULLs, and `first_page_rows`. -/
def scanNulls : List Page → Nat → Bool × Nat
  | [], firstPageRows => (false, firstPageRows)
  | p :: ps, firstPageRows =>
    let nr := p.u16 0
    let nv := p.u16 2
    let firstPageRows := if firstPageRows = 0 then nr else firstPageRows
    if nv ≠ nr then (true, firstPageRows) else scanNulls ps firstPageRows

/-- The `column_t` with the given buffers. -/
def bufferedColumn (type : DataType) (buffers : List (List Value)) : ColumnT :=
  { type := type
    buffers := buffers
    numRows := match buffers.getLast? with
      | none => 0
      | some back => (buffers.length - 1) * 1024 + back.length }

/-- The `column_t` that points to the pages of a column. -/
def directColumn (type : DataType) (column : Column) (firstPageRows : Nat) : ColumnT :=
  { type := type
    originalCol := some column
    rowsPerPage := firstPageRows
    numRows := (column.pages.map fun p => p.u16 0).sum
    pageRowids := rowids column.pages 0 }

/-- `build_column_inserter`; `junk` gives the `val` of the NULL rows of each page. -/
def buildColumnInserter (tableId colId : Nat) (column : Column) (type : DataType)
    (junk : Nat → Nat → Int32) : ColumnT :=
  match type with
  | .int32 =>
    let (hasNulls, firstPageRows) := scanNulls column.pages 0
    if !hasNulls && firstPageRows > 0 then
      directColumn type column firstPageRows
    else
      bufferedColumn type
        (column.pages.zipIdx.foldl (fun b pi => scanInt32Page (junk pi.2) b pi.1) {}).close
  | .varchar =>
    bufferedColumn type
      (column.pages.zipIdx.foldl (fun b pi => scanVarcharPage tableId colId pi.2 b pi.1) {}).close
  | _ => bufferedColumn type []

/-! ## The buffers -/

/-- The buffers hold the values pushed so far. -/
structure Buffers.Holds (b : Buffers) (vs : List Value) : Prop where
  values : b.done.flatten ++ b.curbuf = vs
  full : ∀ d ∈ b.done, d.length = 1024
  lt : b.curbuf.length < 1024

theorem Buffers.holds_empty : Buffers.Holds {} [] := ⟨rfl, by simp, by simp⟩

theorem Buffers.Holds.push {b : Buffers} {vs : List Value} (h : b.Holds vs) (v : Value) :
    (b.push v).Holds (vs ++ [v]) := by
  have hlt := h.lt
  unfold Buffers.push
  simp only
  split
  · next hfull =>
    refine ⟨by simp [← h.values], fun d hd => ?_, by simp⟩
    rcases List.mem_append.mp hd with hd | hd
    · exact h.full d hd
    · rw [List.mem_singleton.mp hd, hfull]
  · next hfull =>
    refine ⟨by simp [← h.values], h.full, ?_⟩
    simp only [List.length_append, List.length_singleton] at hfull ⊢
    omega

theorem Buffers.Holds.pushAll {b : Buffers} {vs : List Value} (h : b.Holds vs) (ws : List Value) :
    (ws.foldl Buffers.push b).Holds (vs ++ ws) := by
  induction ws generalizing b vs with
  | nil => simpa using h
  | cons w ws ih =>
    rw [List.foldl_cons, List.append_cons]
    exact ih (h.push w)

/-- The column built from the buffers is valid and has the pushed values. -/
theorem Buffers.Holds.column {b : Buffers} {vs : List Value} (h : b.Holds vs) (type : DataType) :
    (bufferedColumn type b.close).Valid ∧ (bufferedColumn type b.close).values = vs := by
  have hflat : b.close.flatten = vs := by rw [Buffers.close, flatten_close, h.values]
  have huni : Uniform 1024 b.close := uniform_close h.full h.lt.le
  refine ⟨⟨?_, fun _ => huni, by simp [bufferedColumn]⟩, hflat⟩
  show (match b.close.getLast? with
    | none => 0
    | some back => (b.close.length - 1) * 1024 + back.length) = b.close.flatten.length
  rcases huni.eq_concat with hnil | ⟨full, last, heq, -, -⟩
  · simp [hnil]
  · rw [heq] at huni ⊢
    rw [huni.length_flatten]
    simp

/-! ## The rows of a page -/

/-- The values that the row loop pushes, whatever the page holds. -/
def pushedValues {β : Type} (bit : Nat → Bool) (value null : Nat → β) :
    (remaining i curNvRow : Nat) → List β
  | 0, _, _ => []
  | remaining + 1, i, curNvRow =>
    if bit i then value curNvRow :: pushedValues bit value null remaining (i + 1) (curNvRow + 1)
    else null i :: pushedValues bit value null remaining (i + 1) curNvRow

theorem scanRows_eq_foldl (bit : Nat → Bool) (value null : Nat → Value) (remaining i cur : Nat)
    (b : Buffers) : scanRows bit value null remaining i cur b =
      (pushedValues bit value null remaining i cur).foldl Buffers.push b := by
  induction remaining generalizing i cur b with
  | zero => rfl
  | succ remaining ih =>
    unfold scanRows
    rw [pushedValues]
    split
    · rw [ih, List.foldl_cons]
    · rw [ih, List.foldl_cons]

theorem map_pushedValues {β γ : Type} (f : β → γ) (bit : Nat → Bool) (value null : Nat → β)
    (remaining i cur : Nat) : (pushedValues bit value null remaining i cur).map f =
      pushedValues bit (f ∘ value) (f ∘ null) remaining i cur := by
  induction remaining generalizing i cur with
  | zero => rfl
  | succ remaining ih =>
    rw [pushedValues, pushedValues]
    split
    · rw [List.map_cons, ih]
      rfl
    · rw [List.map_cons, ih]
      rfl

/-- The values that the row loop pushes for rows of which the bitmap says which are NULL. -/
def rowValues {α β : Type} (value null : Nat → β) : List (Option α) → Nat → Nat → List β
  | [], _, _ => []
  | none :: rows, i, cur => null i :: rowValues value null rows (i + 1) cur
  | some _ :: rows, i, cur => value cur :: rowValues value null rows (i + 1) (cur + 1)

theorem pushedValues_eq {α β : Type} {bit : Nat → Bool} (value null : Nat → β)
    (rows : List (Option α)) (i cur : Nat)
    (hbit : ∀ k (h : k < rows.length), bit (i + k) = rows[k].isSome) :
    pushedValues bit value null rows.length i cur = rowValues value null rows i cur := by
  induction rows generalizing i cur with
  | nil => rfl
  | cons row rows ih =>
    have hbit0 := hbit 0 (by simp)
    have hbit' : ∀ k (h : k < rows.length), bit (i + 1 + k) = rows[k].isSome := fun k h => by
      have := hbit (k + 1) (by simpa using h)
      rwa [show i + (k + 1) = i + 1 + k by omega] at this
    rw [List.length_cons, pushedValues]
    cases row with
    | none =>
      rw [if_neg (by simpa using hbit0), ih _ _ hbit']
      rfl
    | some v =>
      rw [if_pos (by simpa using hbit0), ih _ _ hbit']
      rfl

theorem scanRows_eq {α : Type} {bit : Nat → Bool} (value null : Nat → Value)
    (rows : List (Option α)) (i cur : Nat) (b : Buffers)
    (hbit : ∀ k (h : k < rows.length), bit (i + k) = rows[k].isSome) :
    scanRows bit value null rows.length i cur b =
      (rowValues value null rows i cur).foldl Buffers.push b := by
  rw [scanRows_eq_foldl, pushedValues_eq value null rows i cur hbit]

theorem forall₂_append_iff {α β : Type} {R : α → β → Prop} {l₁ l₂ : List α} {m₁ m₂ : List β}
    (h : l₁.length = m₁.length) : List.Forall₂ R (l₁ ++ l₂) (m₁ ++ m₂) ↔
      List.Forall₂ R l₁ m₁ ∧ List.Forall₂ R l₂ m₂ := by
  induction l₁ generalizing m₁ with
  | nil =>
    have : m₁ = [] := List.length_eq_zero_iff.mp h.symm
    simp [this]
  | cons a l₁ ih =>
    cases m₁ with
    | nil => simp at h
    | cons b m₁ => simp [ih (by simpa using h), and_assoc]

theorem length_rowValues {α β : Type} (value null : Nat → β) (rows : List (Option α))
    (i cur : Nat) : (rowValues value null rows i cur).length = rows.length := by
  induction rows generalizing i cur with
  | nil => rfl
  | cons row rows ih => cases row <;> simp [rowValues, ih]

/-- Rows read back one by one, when NULL rows are. -/
theorem rowValues_iff {α : Type} {f : Value → Except Fault (Option α)} {value null : Nat → Value}
    (hnull : ∀ i, f (null i) = .ok none) (rows : List (Option α)) (i cur : Nat) :
    List.Forall₂ (fun v row => f v = .ok row) (rowValues value null rows i cur) rows ↔
      ∀ k (hk : k < rows.reduceOption.length),
        f (value (cur + k)) = .ok (some rows.reduceOption[k]) := by
  induction rows generalizing i cur with
  | nil => simp [rowValues]
  | cons row rows ih =>
    cases row with
    | none =>
      unfold rowValues
      rw [List.forall₂_cons, ih]
      simp only [hnull, true_and]
      rfl
    | some s =>
      unfold rowValues
      rw [List.forall₂_cons, ih]
      constructor
      · rintro ⟨h0, hrest⟩ k hk
        cases k with
        | zero => exact h0
        | succ k =>
          have := hrest k (by simpa [List.reduceOption_cons_of_some] using hk)
          rwa [show cur + 1 + k = cur + (k + 1) by omega] at this
      · intro h
        refine ⟨h 0 (by simp [List.reduceOption_cons_of_some]), fun k hk => ?_⟩
        have := h (k + 1) (by simpa [List.reduceOption_cons_of_some] using hk)
        rwa [show cur + (k + 1) = cur + 1 + k by omega] at this

/-! ## What NULL rows leave behind -/

theorem scanInt32_erase (junk junk' : Nat → Nat → Int32) (pages : List Page) (idx : Nat)
    {b b' : Buffers} {vs vs' : List Value} (hb : b.Holds vs) (hb' : b'.Holds vs')
    (h : vs.map Value.erase = vs'.map Value.erase) : ∃ ws ws',
      ((pages.zipIdx idx).foldl (fun b pi => scanInt32Page (junk pi.2) b pi.1) b).Holds ws ∧
      ((pages.zipIdx idx).foldl (fun b pi => scanInt32Page (junk' pi.2) b pi.1) b').Holds ws' ∧
      ws.map Value.erase = ws'.map Value.erase := by
  induction pages generalizing idx b b' vs vs' with
  | nil => exact ⟨vs, vs', hb, hb', h⟩
  | cons p pages ih =>
    rw [List.zipIdx_cons, List.foldl_cons, List.foldl_cons]
    have hpage : ∀ (junk : Nat → Int32) (b : Buffers) (vs : List Value), b.Holds vs →
        (scanInt32Page junk b p).Holds (vs ++ pushedValues (getBitmap (Page.bitmap p (p.u16 0)))
          (fun cur => Value.int32 (p.read Int32 (4 + 4 * cur))) (fun i => Value.null (junk i))
            (p.u16 0) 0 0) := fun junk b vs hb => by
      unfold scanInt32Page
      rw [scanRows_eq_foldl]
      exact hb.pushAll _
    apply ih (idx + 1) (hpage _ _ _ hb) (hpage _ _ _ hb')
    rw [List.map_append, List.map_append, h, map_pushedValues, map_pushedValues]
    rfl

/-- What NULL rows leave in `val` makes no other difference. -/
theorem buildColumnInserter_erase (tableId colId : Nat) (column : Column) (type : DataType)
    (junk junk' : Nat → Nat → Int32) :
    (buildColumnInserter tableId colId column type junk).values.map Value.erase =
      (buildColumnInserter tableId colId column type junk').values.map Value.erase := by
  cases type with
  | int32 =>
    obtain ⟨ws, ws', hws, hws', h⟩ := scanInt32_erase junk junk' column.pages 0
      Buffers.holds_empty Buffers.holds_empty rfl
    unfold buildColumnInserter
    simp only
    split
    · rfl
    · rw [(hws.column .int32).2, (hws'.column .int32).2, h]
  | int64 => rfl
  | fp64 => rfl
  | varchar => rfl

/-! ## String columns -/

/-- The references to the rows of page `idx`. -/
def stringRefs (tableId colId idx : Nat) (rows : List (Option (List UInt8))) : List Value :=
  rowValues (fun cur => Value.str tableId colId idx (4 + 2 * cur))
    (fun _ => Value.str tableId colId idx 0xFFFF) rows 0 0

theorem scanVarcharPage_eq (tableId colId idx : Nat) {rows : List (Option (List UInt8))} {p : Page}
    (h : StringPage rows p) (b : Buffers) :
    scanVarcharPage tableId colId idx b p =
      (stringRefs tableId colId idx rows).foldl Buffers.push b := by
  have hlt := h.numRows_lt
  unfold scanVarcharPage
  rw [if_neg (by omega), if_neg (by omega), h.numRows]
  apply scanRows_eq _ _ rows 0 0 b
  intro k hk
  rw [Nat.zero_add]
  exact h.bits k hk

/-- The references to all rows of ordinary pages, numbered from `idx` on. -/
def columnRefs (tableId colId : Nat) : List (List (Option (List UInt8))) → Nat → List Value
  | [], _ => []
  | rows :: chunks, idx =>
    stringRefs tableId colId idx rows ++ columnRefs tableId colId chunks (idx + 1)

theorem scanVarchar_pages (tableId colId idx : Nat) {chunks : List (List (Option (List UInt8)))}
    {pages : List Page} (h : List.Forall₂ StringPage chunks pages) (b : Buffers) :
    (pages.zipIdx idx).foldl (fun b pi => scanVarcharPage tableId colId pi.2 b pi.1) b =
      (columnRefs tableId colId chunks idx).foldl Buffers.push b := by
  induction h generalizing idx b with
  | nil => rfl
  | cons hp _ ih =>
    rw [List.zipIdx_cons, List.foldl_cons, columnRefs, List.foldl_append,
      scanVarcharPage_eq tableId colId idx hp, ih]

/-- Scanning a string column without long strings gives one reference per row. -/
theorem buildColumnInserter_varchar (tableId colId : Nat)
    {chunks : List (List (Option (List UInt8)))} {pages : List Page}
    (h : List.Forall₂ StringPage chunks pages) (junk : Nat → Nat → Int32) :
    (buildColumnInserter tableId colId ⟨.varchar, pages⟩ .varchar junk).Valid ∧
      (buildColumnInserter tableId colId ⟨.varchar, pages⟩ .varchar junk).values =
        columnRefs tableId colId chunks 0 := by
  have hholds := Buffers.holds_empty.pushAll (columnRefs tableId colId chunks 0)
  rw [← scanVarchar_pages tableId colId 0 h, List.nil_append] at hholds
  exact hholds.column .varchar

end HashJoin
