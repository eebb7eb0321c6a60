import HashJoin.Plan
import HashJoin.Lib.Chunks

/-!
# Values and columns of the executor

`value_t` is eight bytes, seen either as an `int32_wrapper` (a value and a status, 0 for NULL) or
as a `string_struct` (a reference to a string in an input table, with offset `0xFFFF` for NULL).
A `column_t` keeps its values in buffers of 1024, or points to the null-free pages of an input
column.
-/

namespace HashJoin

open Bytes Chunks

/-- `value_t`, as an `int32_wrapper`. -/
structure Value where
  val : Int32
  status : Int32
  deriving DecidableEq

/-- Two 16-bit fields in one word, the first one in its low half. -/
def halves (lo hi : Nat) : Int32 := (UInt32.ofNat (lo % 65536 + 65536 * (hi % 65536))).toInt32

def lowHalf (x : Int32) : Nat := x.toUInt32.toNat % 65536

def highHalf (x : Int32) : Nat := x.toUInt32.toNat / 65536

theorem toNat_halves (lo hi : Nat) :
    (halves lo hi).toUInt32.toNat = lo % 65536 + 65536 * (hi % 65536) := by
  have h : lo % 65536 + 65536 * (hi % 65536) < 2 ^ 32 := by omega
  rw [halves, UInt32.toUInt32_toInt32, UInt32.toNat_ofNat', Nat.mod_eq_of_lt h]

@[simp] theorem lowHalf_halves (lo hi : Nat) : lowHalf (halves lo hi) = lo % 65536 := by
  unfold lowHalf
  rw [toNat_halves]
  omega

@[simp] theorem highHalf_halves (lo hi : Nat) : highHalf (halves lo hi) = hi % 65536 := by
  unfold highHalf
  rw [toNat_halves]
  omega

namespace Value

def int32 (v : Int32) : Value := ⟨v, 1⟩

/-- A NULL `int32_wrapper`, whose value is not written. -/
def null (junk : Int32) : Value := ⟨junk, 0⟩

/-- A `string_struct`, whose fields have 16 bits. -/
def str (tableId colId pageId offset : Nat) : Value := ⟨halves tableId colId, halves pageId offset⟩

def tableId (v : Value) : Nat := lowHalf v.val
def colId (v : Value) : Nat := highHalf v.val
def pageId (v : Value) : Nat := lowHalf v.status
def offset (v : Value) : Nat := highHalf v.status

@[simp] theorem tableId_str (t c p o : Nat) : (str t c p o).tableId = t % 65536 :=
    lowHalf_halves t c
@[simp] theorem colId_str (t c p o : Nat) : (str t c p o).colId = c % 65536 := highHalf_halves t c
@[simp] theorem pageId_str (t c p o : Nat) : (str t c p o).pageId = p % 65536 := lowHalf_halves p o
@[simp] theorem offset_str (t c p o : Nat) : (str t c p o).offset = o % 65536 := highHalf_halves p o

/-- The row that an `int32_wrapper` stands for: NULL unless its status is set. -/
def key (v : Value) : Option Int32 := if v.status ≠ 0 then some v.val else none

/-- The status is one that a scan writes. -/
def IsInt32 (v : Value) : Prop := v.status = 0 ∨ v.status = 1

@[simp] theorem key_int32 (x : Int32) : (int32 x).key = some x := rfl

theorem status_of_key {v : Value} (h : v.key = none) : v.status = 0 := by
  by_contra hne
  simp [key, hne] at h

theorem eq_int32_of_key {v : Value} {x : Int32} (hv : v.IsInt32) (h : v.key = some x) :
    v = int32 x := by
  obtain ⟨val, status⟩ := v
  rcases hv with rfl | rfl
  · cases h
  · have hval : val = x := Option.some.inj h
    unfold int32
    rw [hval]

/-- The test of `materialize_columnar_table_parallel`. -/
def isNull (v : Value) : Bool := v.offset = 0xFFFF || v.status = 0

theorem status_str_ne_zero {t c p o : Nat} (h : 0 < o % 65536) : (str t c p o).status ≠ 0 := by
  intro hz
  have ho := offset_str t c p o
  rw [offset, hz] at ho
  have : highHalf 0 = 0 := rfl
  omega

theorem isNull_str {t c p o : Nat} (h : 0 < o) (h' : o < 65536) :
    (str t c p o).isNull = decide (o = 0xFFFF) := by
  have hz := status_str_ne_zero (t := t) (c := c) (p := p) (o := o) (by omega)
  simp [isNull, hz, Nat.mod_eq_of_lt h']

/-- On the values of a scan it is a test of the status. -/
theorem isNull_of_isInt32 {v : Value} (h : v.IsInt32) : v.isNull = v.key.isNone := by
  have h0 : highHalf 0 = 0 := rfl
  have h1 : highHalf 1 = 0 := rfl
  rcases h with h | h <;> simp [isNull, key, offset, h, h0, h1]

/-- The value without what a NULL leaves in `val`. -/
def erase (v : Value) : Value := if v.status = 0 then null 0 else v

@[simp] theorem status_erase (v : Value) : v.erase.status = v.status := by
  unfold erase
  split
  · next h => exact h.symm
  · rfl

@[simp] theorem key_erase (v : Value) : v.erase.key = v.key := by
  by_cases h : v.status = 0
  · simp [key, h]
  · unfold erase
    rw [if_neg h]

@[simp] theorem isNull_erase (v : Value) : v.erase.isNull = v.isNull := by
  rw [isNull, isNull, offset, offset, status_erase]

end Value

/-- `column_t`. -/
structure ColumnT where
  buffers : List (List Value) := []
  numRows : Nat := 0
  type : DataType := .int32
  originalCol : Option Column := none
  rowsPerPage : Nat := 0
  pageRowids : List Nat := []

/-- An access into a vector or an array. -/
def at? {α : Type} (l : List α) (i : Nat) : Except Fault α :=
  match l[i]? with
  | some a => .ok a
  | none => .error .outOfRange

theorem at?_eq_ok {α : Type} {l : List α} {i : Nat} {a : α} (h : l[i]? = some a) :
    at? l i = .ok a := by
  rw [at?, h]

theorem eq_some_of_at? {α : Type} {l : List α} {i : Nat} {a : α} (h : at? l i = .ok a) :
    l[i]? = some a := by
  unfold at? at h
  split at h
  · next heq => rw [heq, Except.ok.inj h]
  · cases h

/-- `get_value`. -/
def ColumnT.getValue (col : ColumnT) (rowIdx : Nat) : Except Fault Value :=
  match col.originalCol with
  | none => do
    let buffer ← at? col.buffers (rowIdx / 1024)
    at? buffer (rowIdx % 1024)
  | some original => do
    let page ← at? original.pages (rowIdx / col.rowsPerPage)
    let val ← Page.readAt Int32 page (4 + 4 * (rowIdx % col.rowsPerPage))
    .ok (Value.int32 val)

/-! ## Slices of rows -/

/-- `rows_per_thread`, and `tuples_per_thread`. -/
def rowsPerThread (numRows numThreads : Nat) : Nat := (numRows + numThreads - 1) / numThreads

/-- The rows of the slice of thread `t`. -/
def sliceRows (numRows numThreads t : Nat) : List Nat :=
  let startRow := t * rowsPerThread numRows numThreads
  let endRow := min (startRow + rowsPerThread numRows numThreads) numRows
  List.range' startRow (endRow - startRow)

/-! ## Columns in order -/

/-- The rows of a null-free `INT32` page. -/
def pageValues (p : Page) : List Value :=
  (List.range (p.u16 0)).map fun i => Value.int32 (p.read Int32 (4 + 4 * i))

theorem length_pageValues (p : Page) : (pageValues p).length = p.u16 0 := by
  simp [pageValues]

/-- The values of a column, row by row. -/
def ColumnT.values (col : ColumnT) : List Value :=
  match col.originalCol with
  | none => col.buffers.flatten
  | some original => (original.pages.map pageValues).flatten

/-- The number of rows before each page, and in all of them. -/
def rowids : List Page → Nat → List Nat
  | [], n => [n]
  | p :: ps, n => n :: rowids ps (n + p.u16 0)

/-- The row id of a page. -/
theorem getElem?_rowids (pages : List Page) (n idx : Nat) (h : idx ≤ pages.length) :
    (rowids pages n)[idx]? = some (n + ((pages.take idx).map pageValues).flatten.length) := by
  induction pages generalizing n idx with
  | nil =>
    have : idx = 0 := by simpa using h
    simp [this, rowids]
  | cons p pages ih =>
    cases idx with
    | zero => simp [rowids]
    | succ idx =>
      unfold rowids
      rw [List.getElem?_cons_succ, ih _ _ (by simpa using h), List.take_succ_cons,
        List.map_cons, List.flatten_cons, List.length_append, length_pageValues, Nat.add_assoc]

/-- A column whose buffers but the last are full, or whose pages but a shorter last one have the
same number of rows. -/
structure ColumnT.Valid (col : ColumnT) : Prop where
  numRows : col.numRows = col.values.length
  buffers : col.originalCol = none → Uniform 1024 col.buffers
  pages : ∀ original, col.originalCol = some original →
    0 < col.rowsPerPage ∧ Uniform col.rowsPerPage (original.pages.map pageValues) ∧
      (∀ p ∈ original.pages, 4 + 4 * p.u16 0 ≤ 8192) ∧ col.pageRowids = rowids original.pages 0

/-- On a valid column `get_value` finds every row. -/
theorem ColumnT.Valid.getValue {col : ColumnT} (h : col.Valid) {i : Nat}
    (hi : i < col.values.length) : col.getValue i = .ok col.values[i] := by
  have hget : col.values[i]? = some col.values[i] := List.getElem?_eq_getElem hi
  unfold ColumnT.getValue
  cases ho : col.originalCol with
  | none =>
    have hv : col.values = col.buffers.flatten := by simp [ColumnT.values, ho]
    have hc := (h.buffers ho).getElem?_flatten (by decide) i
    rw [← hv, hget] at hc
    obtain ⟨b, hb, hbi⟩ := Option.bind_eq_some_iff.mp hc.symm
    simp only [at?_eq_ok hb, at?_eq_ok hbi, ok_bind]
  | some original =>
    obtain ⟨hpos, huni, hfits, -⟩ := h.pages original ho
    have hv : col.values = (original.pages.map pageValues).flatten := by
      simp [ColumnT.values, ho]
    have hc := huni.getElem?_flatten hpos i
    rw [← hv, hget] at hc
    obtain ⟨b, hb, hbi⟩ := Option.bind_eq_some_iff.mp hc.symm
    rw [List.getElem?_map] at hb
    obtain ⟨p, hp, rfl⟩ := Option.map_eq_some_iff.mp hb
    obtain ⟨hlt, hval⟩ := List.getElem?_eq_some_iff.mp hbi
    rw [length_pageValues] at hlt
    have hsize : Pod.size Int32 = 4 := rfl
    have hfit : 4 + 4 * (i % col.rowsPerPage) + Pod.size Int32 ≤ 8192 := by
      have := hfits p (List.mem_of_getElem? hp)
      omega
    simp only [at?_eq_ok hp, ok_bind, Page.readAt, if_pos hfit]
    rw [← hval]
    simp [pageValues]

/-! ## Reading slices -/

theorem sliceRows_eq (numRows numThreads t : Nat) :
    sliceRows numRows numThreads t =
      slice (rowsPerThread numRows numThreads) (List.range numRows) t := by
  refine List.ext_getElem ?_ fun i hi hi' => ?_
  · simp only [sliceRows, slice, List.length_range', List.length_take, List.length_drop,
      List.length_range]
    rw [← Nat.sub_min_sub_right, Nat.add_sub_cancel_left]
  · simp [sliceRows, slice]

/-- The slices cover all rows. -/
theorem le_mul_rowsPerThread {numRows numThreads : Nat} (h : 0 < numThreads) :
    numRows ≤ numThreads * (rowsPerThread numRows numThreads) := by
  have hdm := Nat.div_add_mod (numRows + numThreads - 1) numThreads
  rw [← rowsPerThread] at hdm
  have := Nat.mod_lt (numRows + numThreads - 1) h
  omega

/-- `get_value` succeeds for every row, with the given values. -/
def Reads (col : ColumnT) (numRows : Nat) (values : List Value) : Prop :=
  List.Forall₂ (fun i v => col.getValue i = .ok v) (List.range numRows) values

theorem ColumnT.Valid.reads {col : ColumnT} (h : col.Valid) : Reads col col.numRows col.values := by
  refine List.forall₂_iff_get.mpr ⟨by simp [h.numRows], fun i hi hi' => ?_⟩
  simpa using h.getValue hi'

theorem Reads.slice {col : ColumnT} {numRows : Nat} {values : List Value}
    (h : Reads col numRows values) (k t : Nat) :
    (slice k (List.range numRows) t).mapM col.getValue = .ok (slice k values t) :=
  mapM_eq_ok_iff.mpr (List.forall₂_take k (List.forall₂_drop (t * k) h))

end HashJoin
