import HashJoin.ColumnInserter
import HashJoin.Scan

/-!
# Materialising a result

`materialize_columnar_table_parallel` writes the columns of a result to pages. The rows of a column
are cut into one slice per thread, each written by its own inserter, and the pages of the slices
are put one after another. The threads share nothing but what they read.
-/

namespace HashJoin

open Bytes

/-! ## Dereferencing a string -/

/-- The pages `0xfffe` from `page_id` on. The index has 16 bits: if all 65536 pages are passed the
loop does not end. -/
def appendLong (column : Column) : (fuel pageId : Nat) → List UInt8 → Except Fault (List UInt8)
  | 0, _, _ => .error .outOfRange
  | fuel + 1, pageId, str => do
    let page ← at? column.pages pageId
    if page.u16 0 = 0xfffe then do
      let chunk ← readLong page
      appendLong column fuel ((pageId + 1) % 65536) (str ++ chunk)
    else .ok str

/-- `std::string_view(page_data + start_offset, end_offset - start_offset)`. -/
def stringView (page : Page) (startOffset endOffset : Nat) : Except Fault (List UInt8) :=
  if endOffset = startOffset then .ok []
  else if endOffset < startOffset ∨ 8192 < endOffset then .error .outOfRange
  else .ok (page.slice startOffset (endOffset - startOffset))

/-- The string on an ordinary page whose end offset is stored at `endOffsetPos`. The offsets have
16 bits. -/
def derefShort (page : Page) (endOffsetPos : Nat) : Except Fault (List UInt8) := do
  let baseOffset := (4 + page.u16 0 * 2) % 65536
  if endOffsetPos > 4 then do
    let endOffset ← Page.readAt UInt16 page endOffsetPos
    let startOffset ← Page.readAt UInt16 page (endOffsetPos - 2)
    stringView page ((startOffset.toNat + baseOffset) % 65536)
      ((endOffset.toNat + baseOffset) % 65536)
  else do
    let endOffset ← Page.readAt UInt16 page 4
    stringView page baseOffset ((endOffset.toNat + baseOffset) % 65536)

/-- The string that a reference stands for. -/
def derefString (inputs : List ColumnarTable) (v : Value) : Except Fault (List UInt8) := do
  let table ← at? inputs v.tableId
  let column ← at? table.columns v.colId
  let page ← at? column.pages v.pageId
  if page.u16 0 = 0xffff then do
    let str ← readLong page
    appendLong column 65536 ((v.pageId + 1) % 65536) str
  else derefShort page v.offset

/-- What is inserted into a `VARCHAR` column for a value. -/
def stringCall (inputs : List ColumnarTable) (v : Value) : Except Fault (Option (List UInt8)) :=
  if v.isNull then .ok none
  else do
    let str ← derefString inputs v
    .ok (some str)

/-- What is inserted into an `INT32` column for a value. -/
def int32Call (v : Value) : Option Int32 := if v.isNull then none else some v.val

/-! ## Writing the columns -/

/-- The pages that one thread writes for its rows. A NULL of another type than `INT32` and
`VARCHAR` is not inserted at all. -/
def materializeSlice (inputs : List ColumnarTable) (type : DataType) (fresh : Nat → Page)
    (col : ColumnT) (rows : List Nat) : Except Fault (List Page) := do
  let values ← rows.mapM col.getValue
  match type with
  | .varchar => do
    let calls ← values.mapM (stringCall inputs)
    .ok (StringInserter.write fresh calls)
  | .int32 => .ok (ColumnInserter.write fresh (values.map int32Call))
  | _ => .ok (ColumnInserter.write fresh ((values.map int32Call).filter Option.isSome))

/-- The pages of one column of a table of `numRows` rows; `fresh` gives the contents of the new
pages of each thread. -/
def materializeColumn (inputs : List ColumnarTable) (type : DataType) (fresh : Nat → Nat → Page)
    (numThreads numRows : Nat) (col : ColumnT) : Except Fault Column := do
  if col.numRows = 0 then
    match type with
    | .varchar =>
      .ok ⟨type, StringInserter.write (fresh 0) (List.replicate numRows none)⟩
    | .int32 =>
      .ok ⟨type, ColumnInserter.write (T := Int32) (fresh 0) (List.replicate numRows none)⟩
    | _ => .ok ⟨type, []⟩
  else do
    let threadPages ← (List.range numThreads).mapM fun t =>
      materializeSlice inputs type (fresh t) col (sliceRows numRows numThreads t)
    .ok ⟨type, threadPages.flatten⟩

/-- `materialize_columnar_table_parallel`. -/
def materialize (inputs : List ColumnarTable) (result : List ColumnT) (attrVec : List DataType)
    (fresh : Nat → Nat → Nat → Page) (numThreads : Nat) : Except Fault ColumnarTable := do
  let numRows := match result with
    | [] => 0
    | col :: _ => col.numRows
  let columns ← attrVec.zipIdx.mapM fun (type, colIdx) => do
    let col ← at? result colIdx
    materializeColumn inputs type (fresh colIdx) numThreads numRows col
  .ok { numRows := numRows, columns := columns }

end HashJoin
