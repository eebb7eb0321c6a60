import HashJoin.FromColumnar

/-!
# Writing a columnar table

`Table::to_columnar`: each column is cut into pages, a page being flushed when the next row would
not fit. `fresh` gives the contents of the pages that `new_page` returns.
-/

namespace HashJoin

open Bytes

/-! ## The bitmap under construction -/

/-- Grows the bitmap with zeros until it has the byte of bit `idx`. -/
def growBitmap (bitmap : List UInt8) (idx : Nat) : List UInt8 :=
  bitmap ++ List.replicate (idx / 8 + 1 - bitmap.length) 0

/-- `set_bitmap`. -/
def setBitmap (bitmap : List UInt8) (idx : Nat) : List UInt8 :=
  (growBitmap bitmap idx).modify (idx / 8) (setBit (idx % 8))

/-- `unset_bitmap`. -/
def unsetBitmap (bitmap : List UInt8) (idx : Nat) : List UInt8 :=
  (growBitmap bitmap idx).modify (idx / 8) (clearBit (idx % 8))

theorem length_growBitmap (bitmap : List UInt8) (idx : Nat) :
    (growBitmap bitmap idx).length = max bitmap.length (idx / 8 + 1) := by
  simp [growBitmap]
  omega

theorem bitOf_setBitmap (bitmap : List UInt8) (idx j : Nat) :
    bitOf (setBitmap bitmap idx) j = (decide (j = idx) || bitOf bitmap j) := by
  have hlen := length_growBitmap bitmap idx
  apply bitAt_setBit j
  intro k
  unfold setBitmap
  rw [getD_modify _ _ (by omega), growBitmap, getD_append_zeros]

theorem bitOf_unsetBitmap (bitmap : List UInt8) (idx j : Nat) :
    bitOf (unsetBitmap bitmap idx) j = (decide (j ≠ idx) && bitOf bitmap j) := by
  have hlen := length_growBitmap bitmap idx
  apply bitAt_clearBit j
  intro k
  unfold unsetBitmap
  rw [getD_modify _ _ (by omega), growBitmap, getD_append_zeros]

/-- The bitmap says which of the rows are not NULL. -/
structure BitmapOk {α : Type} (rows : List (Option α)) (bitmap : List UInt8) : Prop where
  length : bitmap.length = (rows.length + 7) / 8
  bits : ∀ i (h : i < rows.length), bitOf bitmap i = rows[i].isSome

theorem BitmapOk.nil {α : Type} : BitmapOk ([] : List (Option α)) [] :=
  ⟨by simp, by simp⟩

theorem BitmapOk.set {α : Type} {rows : List (Option α)} {bitmap : List UInt8}
    (h : BitmapOk rows bitmap) (v : α) :
    BitmapOk (rows ++ [some v]) (setBitmap bitmap rows.length) := by
  have hlen := h.length
  refine ⟨?_, fun i hi => ?_⟩
  · unfold setBitmap
    rw [List.length_modify, length_growBitmap, List.length_append,
      List.length_singleton]
    omega
  · rw [bitOf_setBitmap]
    rcases Nat.lt_succ_iff_lt_or_eq.mp (by simpa using hi) with hlt | rfl
    · rw [List.getElem_append_left hlt, h.bits i hlt]
      simp [Nat.ne_of_lt hlt]
    · simp

theorem BitmapOk.unset {α : Type} {rows : List (Option α)} {bitmap : List UInt8}
    (h : BitmapOk rows bitmap) : BitmapOk (rows ++ [none]) (unsetBitmap bitmap rows.length) := by
  have hlen := h.length
  refine ⟨?_, fun i hi => ?_⟩
  · unfold unsetBitmap
    rw [List.length_modify, length_growBitmap, List.length_append,
      List.length_singleton]
    omega
  · rw [bitOf_unsetBitmap]
    rcases Nat.lt_succ_iff_lt_or_eq.mp (by simpa using hi) with hlt | rfl
    · rw [List.getElem_append_left hlt, h.bits i hlt]
      simp [Nat.ne_of_lt hlt]
    · simp

/-! ## Fixed-width columns -/

/-- The page under construction of an `INT32`, `INT64` or `FP64` column. `num_rows` has 16 bits. -/
structure FixedWriter (T : Type) where
  pages : List Page := []
  numRows : Nat := 0
  data : List T := []
  bitmap : List UInt8 := []

namespace FixedWriter

variable {T : Type} [Pod T] (fresh : Nat → Page) (dataBegin : Nat)

/-- The page that `save_page` writes. -/
def page (w : FixedWriter T) : Page :=
  let page := fresh w.pages.length
  let page := page.setU16 0 w.numRows
  let page := page.setU16 2 w.data.length
  let page := page.memcpy dataBegin (w.data.flatMap Pod.toBytes)
  page.memcpy (8192 - w.bitmap.length) w.bitmap

def savePage (w : FixedWriter T) : FixedWriter T :=
  { pages := w.pages ++ [w.page fresh dataBegin] }

def putValue (w : FixedWriter T) (v : T) : FixedWriter T :=
  let w := if dataBegin + (w.data.length + 1) * Pod.size T + (w.numRows / 8 + 1) > 8192 then
    w.savePage fresh dataBegin else w
  { w with
    bitmap := setBitmap w.bitmap w.numRows
    data := w.data ++ [v]
    numRows := (w.numRows + 1) % 65536 }

def putNull (w : FixedWriter T) : FixedWriter T :=
  let w := if dataBegin + w.data.length * Pod.size T + (w.numRows / 8 + 1) > 8192 then
    w.savePage fresh dataBegin else w
  { w with
    bitmap := unsetBitmap w.bitmap w.numRows
    numRows := (w.numRows + 1) % 65536 }

/-- A value of another type is passed over. -/
def visit (get : Data → Option T) (w : FixedWriter T) (value : Data) : FixedWriter T :=
  match value with
  | .null => w.putNull fresh dataBegin
  | value =>
    match get value with
    | some v => w.putValue fresh dataBegin v
    | none => w

/-- The pages of a column with the given values. -/
def write (get : Data → Option T) (values : List Data) : List Page :=
  let w := values.foldl (visit fresh dataBegin get) {}
  if w.numRows ≠ 0 then (w.savePage fresh dataBegin).pages else w.pages

end FixedWriter

/-! ## String columns -/

/-- One page of a long string. -/
def longPage (page : Page) (marker pageDataLen : Nat) (chunk : List UInt8) : Page :=
  let page := page.setU16 0 marker
  let page := page.setU16 2 pageDataLen
  page.memcpy 4 chunk

/-- `save_long_string` from `offset` on. -/
def saveLongString (fresh : Nat → Page) (value : List UInt8) (pages : List Page) (offset : Nat)
    (firstPage : Bool) : List Page :=
  if offset < value.length then
    let pageDataLen := min (value.length - offset) (8192 - 4)
    let page := longPage (fresh pages.length) (if firstPage then 0xffff else 0xfffe) pageDataLen
      ((value.drop offset).take pageDataLen)
    saveLongString fresh value (pages ++ [page]) (offset + pageDataLen) false
  else pages
termination_by value.length - offset

/-- The page under construction of a `VARCHAR` column. -/
structure StringWriter where
  pages : List Page := []
  numRows : Nat := 0
  data : List UInt8 := []
  offsets : List UInt16 := []
  bitmap : List UInt8 := []

namespace StringWriter

variable (fresh : Nat → Page)

/-- The page that `save_page` writes. -/
def page (w : StringWriter) : Page :=
  let page := fresh w.pages.length
  let page := page.setU16 0 w.numRows
  let page := page.setU16 2 w.offsets.length
  let page := page.memcpy 4 (w.offsets.flatMap Pod.toBytes)
  let page := page.memcpy (4 + w.offsets.length * 2) w.data
  page.memcpy (8192 - w.bitmap.length) w.bitmap

def savePage (w : StringWriter) : StringWriter := { pages := w.pages ++ [w.page fresh] }

def putString (w : StringWriter) (value : List UInt8) : StringWriter :=
  if value.length > 8192 - 7 then
    let w := if w.numRows > 0 then w.savePage fresh else w
    { w with pages := saveLongString fresh value w.pages 0 true }
  else
    let w := if 4 + (w.offsets.length + 1) * 2 + (w.data.length + value.length) +
        (w.numRows / 8 + 1) > 8192 then w.savePage fresh else w
    { w with
      bitmap := setBitmap w.bitmap w.numRows
      data := w.data ++ value
      offsets := w.offsets ++ [UInt16.ofNat (w.data ++ value).length]
      numRows := (w.numRows + 1) % 65536 }

def putNull (w : StringWriter) : StringWriter :=
  let w := if 4 + w.offsets.length * 2 + w.data.length + (w.numRows / 8 + 1) > 8192 then
    w.savePage fresh else w
  { w with
    bitmap := unsetBitmap w.bitmap w.numRows
    numRows := (w.numRows + 1) % 65536 }

def visit (w : StringWriter) : Data → Except Fault StringWriter
  | .varchar value => .ok (w.putString fresh value)
  | .null => .ok (w.putNull fresh)
  | _ => .error (.runtimeError "not string or null")

def write (values : List Data) : Except Fault (List Page) := do
  let w ← values.foldlM (visit fresh) {}
  .ok (if w.numRows ≠ 0 then (w.savePage fresh).pages else w.pages)

end StringWriter

/-! ## The table -/

def Data.getInt32 : Data → Option Int32
  | .int32 v => some v
  | _ => none

def Data.getInt64 : Data → Option Int64
  | .int64 v => some v
  | _ => none

def Data.getFp64 : Data → Option UInt64
  | .fp64 v => some v
  | _ => none

def writeColumn (fresh : Nat → Page) : DataType → List Data → Except Fault (List Page)
  | .int32, values => .ok (FixedWriter.write fresh 4 Data.getInt32 values)
  | .int64, values => .ok (FixedWriter.write fresh 8 Data.getInt64 values)
  | .fp64, values => .ok (FixedWriter.write fresh 8 Data.getFp64 values)
  | .varchar, values => StringWriter.write fresh values

/-- `record[col_idx]`. -/
def Table.valueAt (record : List Data) (colIdx : Nat) : Except Fault Data :=
  match record[colIdx]? with
  | some v => .ok v
  | none => .error .outOfRange

def toColumnar (fresh : Nat → Nat → Page) (t : Table) : Except Fault ColumnarTable := do
  let columns ← t.types.zipIdx.mapM fun (type, colIdx) => do
    let values ← t.data.mapM fun record => Table.valueAt record colIdx
    let pages ← writeColumn (fresh colIdx) type values
    .ok ({ type := type, pages := pages } : Column)
  .ok { numRows := t.data.length, columns := columns }

end HashJoin
