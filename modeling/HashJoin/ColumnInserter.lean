import HashJoin.ToColumnar

/-!
# The column inserters

`ColumnInserter<T>` and `ColumnInserter<std::string>`. They append to a column, write values or
offsets to the page at once and stage the row bitmap, and for strings the bytes, in buffers of
`PAGE_SIZE` bytes that are reused for every page and never cleared.
-/

namespace HashJoin

open Bytes

/-! ## The column being written -/

/-- The pages of the column, and `last_page_idx`. -/
structure ColumnPages where
  pages : List Page := []
  lastPageIdx : Nat := 0

namespace ColumnPages

variable (fresh : Nat → Page)

/-- `get_page` makes a page when there is none at `last_page_idx`. -/
def getPage (c : ColumnPages) : List Page :=
  if c.lastPageIdx = c.pages.length then c.pages ++ [fresh c.pages.length] else c.pages

/-- Writes to the page that `get_page` returns. -/
def modifyPage (f : Page → Page) (c : ColumnPages) : ColumnPages :=
  { c with pages := (c.getPage fresh).modify c.lastPageIdx f }

def nextPage (c : ColumnPages) : ColumnPages := { c with lastPageIdx := c.lastPageIdx + 1 }

end ColumnPages

/-! ## Fixed-width values -/

/-- `data_begin()`. -/
def dataBegin (T : Type) [Pod T] : Nat := if Pod.size T < 4 then 4 else Pod.size T

/-- `ColumnInserter<T>`. -/
structure ColumnInserter (T : Type) [Pod T] where
  column : ColumnPages := {}
  numRows : Nat := 0
  dataEnd : Nat := dataBegin T
  bitmap : Buf 8192 := Buf.zero 8192

namespace ColumnInserter

variable {T : Type} [Pod T] (fresh : Nat → Page)

/-- What `save_page` writes to the page. -/
def finishPage (w : ColumnInserter T) (page : Page) : Page :=
  let bitmapSize := (w.numRows + 7) / 8
  let page := page.setU16 0 w.numRows
  let page := page.setU16 2 ((w.dataEnd - dataBegin T) / Pod.size T)
  page.memcpy (8192 - bitmapSize) (w.bitmap.slice 0 bitmapSize)

def savePage (w : ColumnInserter T) : ColumnInserter T :=
  { column := (w.column.modifyPage fresh w.finishPage).nextPage
    numRows := 0
    dataEnd := dataBegin T
    bitmap := w.bitmap }

def insert (w : ColumnInserter T) (value : T) : ColumnInserter T :=
  let w := if w.dataEnd + 4 + w.numRows / 8 + 1 > 8192 then w.savePage fresh else w
  { column := w.column.modifyPage fresh fun page => page.write w.dataEnd value
    dataEnd := w.dataEnd + Pod.size T
    bitmap := w.bitmap.modify (w.numRows / 8) (setBit (w.numRows % 8))
    numRows := (w.numRows + 1) % 65536 }

def insertNull (w : ColumnInserter T) : ColumnInserter T :=
  let w := if w.dataEnd + w.numRows / 8 + 1 > 8192 then w.savePage fresh else w
  { w with
    bitmap := w.bitmap.modify (w.numRows / 8) (clearBit (w.numRows % 8))
    numRows := (w.numRows + 1) % 65536 }

def finalize (w : ColumnInserter T) : ColumnInserter T :=
  if w.numRows ≠ 0 then w.savePage fresh else w

/-- `insert` or `insert_null`. -/
def put (w : ColumnInserter T) : Option T → ColumnInserter T
  | some value => w.insert fresh value
  | none => w.insertNull fresh

/-- The pages after the given calls on an empty column and `finalize`. -/
def write (calls : List (Option T)) : List Page :=
  ((calls.foldl (put fresh) {}).finalize fresh).column.pages

end ColumnInserter

/-! ## Strings -/

/-- `ColumnInserter<std::string>`. -/
structure StringInserter where
  column : ColumnPages := {}
  numRows : Nat := 0
  dataSize : Nat := 0
  offsetEnd : Nat := 4
  data : Buf 8192 := Buf.zero 8192
  bitmap : Buf 8192 := Buf.zero 8192

namespace StringInserter

variable (fresh : Nat → Page)

/-- `save_long_string` from `offset` on. -/
def saveLongString (value : List UInt8) (column : ColumnPages) (offset : Nat)
    (firstPage : Bool) : ColumnPages :=
  if offset < value.length then
    let pageDataLen := min (value.length - offset) (8192 - 4)
    let column := column.modifyPage fresh fun page =>
      longPage page (if firstPage then 0xffff else 0xfffe) pageDataLen
        ((value.drop offset).take pageDataLen)
    saveLongString value column.nextPage (offset + pageDataLen) false
  else column
termination_by value.length - offset

/-- What `save_page` writes to the page. -/
def finishPage (w : StringInserter) (page : Page) : Page :=
  let bitmapSize := (w.numRows + 7) / 8
  let page := page.setU16 0 w.numRows
  let page := page.setU16 2 ((w.offsetEnd - 4) / 2)
  let page := page.memcpy w.offsetEnd (w.data.slice 0 w.dataSize)
  page.memcpy (8192 - bitmapSize) (w.bitmap.slice 0 bitmapSize)

def savePage (w : StringInserter) : StringInserter :=
  { w with
    column := (w.column.modifyPage fresh w.finishPage).nextPage
    numRows := 0
    dataSize := 0
    offsetEnd := 4 }

def insert (w : StringInserter) (value : List UInt8) : StringInserter :=
  if value.length > 8192 - 7 then
    let w := if w.numRows > 0 then w.savePage fresh else w
    { w with column := saveLongString fresh value w.column 0 true }
  else
    let w := if w.offsetEnd + 2 + w.dataSize + value.length + w.numRows / 8 + 1 > 8192 then
      w.savePage fresh else w
    let dataSize := (w.dataSize + value.length) % 65536
    { column := w.column.modifyPage fresh fun page => page.setU16 w.offsetEnd dataSize
      data := w.data.memcpy w.dataSize value
      dataSize := dataSize
      offsetEnd := w.offsetEnd + 2
      bitmap := w.bitmap.modify (w.numRows / 8) (setBit (w.numRows % 8))
      numRows := (w.numRows + 1) % 65536 }

def insertNull (w : StringInserter) : StringInserter :=
  let w := if w.offsetEnd + w.dataSize + w.numRows / 8 + 1 > 8192 then w.savePage fresh else w
  { w with
    bitmap := w.bitmap.modify (w.numRows / 8) (clearBit (w.numRows % 8))
    numRows := (w.numRows + 1) % 65536 }

def finalize (w : StringInserter) : StringInserter :=
  if w.numRows ≠ 0 then w.savePage fresh else w

/-- `insert` or `insert_null`. -/
def put (w : StringInserter) : Option (List UInt8) → StringInserter
  | some value => w.insert fresh value
  | none => w.insertNull fresh

/-- The pages after the given calls on an empty column and `finalize`. -/
def write (calls : List (Option (List UInt8))) : List Page :=
  ((calls.foldl (put fresh) {}).finalize fresh).column.pages

end StringInserter

/-! ## What the pages hold -/

namespace ColumnPages

variable {fresh : Nat → Page}

/-- `flushed` are done, and the page to be filled next has the contents `cur`. -/
structure At (fresh : Nat → Page) (flushed : List Page) (cur : Page) (c : ColumnPages) : Prop where
  idx : c.lastPageIdx = flushed.length
  pages : (c.pages = flushed ∧ cur = fresh flushed.length) ∨ c.pages = flushed ++ [cur]

theorem at_empty : At fresh [] (fresh 0) {} := ⟨rfl, .inl ⟨rfl, rfl⟩⟩

theorem At.modifyPage_pages {flushed : List Page} {cur : Page} {c : ColumnPages}
    (h : At fresh flushed cur c) (f : Page → Page) :
    (c.modifyPage fresh f).pages = flushed ++ [f cur] := by
  have hget : c.getPage fresh = flushed ++ [cur] := by
    unfold getPage
    rcases h.pages with ⟨hp, hcur⟩ | hp
    · rw [if_pos (by rw [h.idx, hp]), hp, hcur]
    · rw [if_neg (by rw [h.idx, hp]; simp), hp]
  unfold ColumnPages.modifyPage
  rw [hget, h.idx]
  simp [List.modify_eq_take_drop]

theorem At.modifyPage {flushed : List Page} {cur : Page} {c : ColumnPages}
    (h : At fresh flushed cur c) (f : Page → Page) :
    At fresh flushed (f cur) (c.modifyPage fresh f) :=
  ⟨h.idx, .inr (h.modifyPage_pages f)⟩

theorem At.nextPage {flushed : List Page} {cur : Page} {c : ColumnPages}
    (h : At fresh flushed cur c) (f : Page → Page) :
    At fresh (flushed ++ [f cur]) (fresh (flushed.length + 1))
      (c.modifyPage fresh f).nextPage := by
  refine ⟨?_, .inl ⟨h.modifyPage_pages f, by simp⟩⟩
  unfold ColumnPages.nextPage
  rw [(h.modifyPage f).idx]
  simp

end ColumnPages

/-- The bit of a staged bitmap after `set_bitmap`. -/
theorem bitAt_set (b : Buf 8192) {i : Nat} (hi : i / 8 < 8192) (j : Nat) :
    bitAt (b.modify (i / 8) (setBit (i % 8))).byte j = (decide (j = i) || bitAt b.byte j) :=
  bitAt_setBit j fun k => by rw [Buf.byte_modify b _ hi]

theorem bitAt_unset (b : Buf 8192) {i : Nat} (hi : i / 8 < 8192) (j : Nat) :
    bitAt (b.modify (i / 8) (clearBit (i % 8))).byte j = (decide (j ≠ i) && bitAt b.byte j) :=
  bitAt_clearBit j fun k => by rw [Buf.byte_modify b _ hi]

/-- The staged bits of the rows of the page; the bits after them are stale. -/
def StagedBits {α : Type} (rows : List (Option α)) (b : Buf 8192) : Prop :=
  ∀ i (h : i < rows.length), bitAt b.byte i = rows[i].isSome

theorem StagedBits.set {α : Type} {rows : List (Option α)} {b : Buf 8192} (h : StagedBits rows b)
    (hlen : rows.length < 65536) (v : α) :
    StagedBits (rows ++ [some v])
      (b.modify (rows.length / 8) (setBit (rows.length % 8))) := by
  intro i hi
  rw [bitAt_set b (by omega)]
  rcases Nat.lt_succ_iff_lt_or_eq.mp (by simpa using hi) with hlt | rfl
  · rw [List.getElem_append_left hlt, h i hlt]
    simp [Nat.ne_of_lt hlt]
  · simp

theorem StagedBits.unset {α : Type} {rows : List (Option α)} {b : Buf 8192}
    (h : StagedBits rows b) (hlen : rows.length < 65536) :
    StagedBits (rows ++ [none])
      (b.modify (rows.length / 8) (clearBit (rows.length % 8))) := by
  intro i hi
  rw [bitAt_unset b (by omega)]
  rcases Nat.lt_succ_iff_lt_or_eq.mp (by simpa using hi) with hlt | rfl
  · rw [List.getElem_append_left hlt, h i hlt]
    simp [Nat.ne_of_lt hlt]
  · simp

/-- Copied to the end of a page, the staged bits are its row bitmap. -/
theorem StagedBits.getBitmap {α : Type} {rows : List (Option α)} {b : Buf 8192}
    (h : StagedBits rows b) (hlen : rows.length < 65536) (p : Page) {i : Nat}
    (hi : i < rows.length) :
    getBitmap (Page.bitmap (p.memcpy (8192 - (rows.length + 7) / 8)
      (b.slice 0 ((rows.length + 7) / 8))) rows.length) i = rows[i].isSome := by
  have hbm := getBitmap_memcpy p (Buf.length_slice b 0 ((rows.length + 7) / 8))
    (by rw [Buf.length_slice]; omega) hi
  rw [Buf.length_slice] at hbm
  rw [hbm, bitOf_slice b (by omega)]
  simpa using h i hi

end HashJoin
