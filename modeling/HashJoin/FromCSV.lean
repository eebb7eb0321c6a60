import HashJoin.CSVParser
import HashJoin.InnerColumn
import HashJoin.ToColumnar

/-!
# Loading a CSV file

`Table::from_csv` without a filter, on a path that neither cache holds. `on_field` does not touch
the state of the parser, so the calls of a whole run are taken from the parser first, and then made
one after another up to one that does not return. `std::stod` stays a parameter.
-/

namespace HashJoin

open Interleave

/-! ## Numbers -/

/-- `std::isspace`. -/
def isSpace (c : UInt8) : Bool := (9 ≤ c && c ≤ 13) || c = 32

def isDigit (c : UInt8) : Bool := 48 ≤ c && c ≤ 57

/-- `strtoll(str, &end, 10)` without the bounds of its type: the number in front, if there is one.
What comes after it is ignored. -/
def strtoll (str : List UInt8) : Option Int :=
  let str := str.dropWhile isSpace
  let signed : Bool := str.head? = some 45 || str.head? = some 43
  let digits := (if signed then str.tail else str).takeWhile isDigit
  let value : Nat := digits.foldl (fun v c => 10 * v + (c.toNat - 48)) 0
  if digits = [] then none else some (if str.head? = some 45 then -value else value)

/-- `std::stoi`, `none` for an exception. -/
def stoi (str : List UInt8) : Option Int32 :=
  (strtoll str).bind fun v =>
    if -2 ^ 31 ≤ v ∧ v < 2 ^ 31 then some (Int32.ofInt v) else none

/-- `std::stoll`, `none` for an exception. -/
def stoll (str : List UInt8) : Option Int64 :=
  (strtoll str).bind fun v =>
    if -2 ^ 63 ≤ v ∧ v < 2 ^ 63 then some (Int64.ofInt v) else none

/-- ` -12x`. -/
example : stoi [32, 45, 49, 50, 120] = some (-12) := by decide

/-- `std::stod`, `none` for an exception. -/
abbrev Stod := List UInt8 → Option UInt64

/-! ## The table under construction -/

structure InnerTable where
  rows : Nat := 0
  columns : List InnerColumnBase := []

def InnerColumnBase.type : InnerColumnBase → DataType
  | .int32 _ => .int32
  | .int64 _ => .int64
  | .fp64 _ => .fp64
  | .varchar _ => .varchar

def InnerColumnBase.empty : DataType → InnerColumnBase
  | .int32 => .int32 {}
  | .int64 => .int64 {}
  | .fp64 => .fp64 {}
  | .varchar => .varchar {}

def Data.getVarchar : Data → Option (List UInt8)
  | .varchar s => some s
  | _ => none

/-- A cast of the column to the type of its attribute, and then `push_back`, or `push_back_null` if
`std::get_if` finds another alternative. -/
def pushField (type : DataType) (field : Data) (column : InnerColumnBase) :
    Except Fault InnerColumnBase :=
  match type, column with
  | .int32, .int32 c => .ok (.int32 (c.push field.getInt32))
  | .int64, .int64 c => .ok (.int64 (c.push field.getInt64))
  | .fp64, .fp64 c => .ok (.fp64 (c.push (field.getFp64.map Fp64.mk)))
  | .varchar, .varchar c => .ok (.varchar (c.push field.getVarchar))
  | _, _ => .error .outOfRange

/-- The body of the loop of `add_record`. A field without an attribute reads past both vectors. -/
def addField (attributes : List DataType) (columns : List InnerColumnBase) (field : Data × Nat) :
    Except Fault (List InnerColumnBase) :=
  match attributes[field.2]?, columns[field.2]? with
  | some type, some column => do
    let column ← pushField type field.1 column
    .ok (columns.set field.2 column)
  | _, _ => .error .outOfRange

def addRecord (attributes : List DataType) (table : InnerTable) (record : List Data) :
    Except Fault InnerTable := do
  let columns ← record.zipIdx.foldlM (addField attributes) table.columns
  .ok { rows := table.rows + 1, columns := columns }

/-! ## The table parser -/

/-- What changes in a `TableParser`, with the table that its `add_record_fn_` fills. -/
structure TableParser where
  lastRecord : List Data := []
  fullTable : InnerTable

/-- A new parser and an empty `full_table`. -/
def TableParser.start (attributes : List DataType) : TableParser :=
  { fullTable := { columns := attributes.map InnerColumnBase.empty } }

/-- The `catch` around a conversion. -/
def orThrow (what : String) : Option Data → Except Fault Data
  | some value => .ok value
  | none => .error (.runtimeError what)

/-- The value of a field that is not empty. -/
def parseValue (stod : Stod) (type : DataType) (bytes : List UInt8) : Except Fault Data :=
  match type with
  | .int32 => orThrow "parse integer error" ((stoi bytes).map .int32)
  | .int64 => orThrow "parse integer error" ((stoll bytes).map .int64)
  | .fp64 => orThrow "parse float error" ((stod bytes).map .fp64)
  | .varchar => .ok (.varchar bytes)

/-- The value that `on_field` adds to the record. The attribute of an empty field is not read. -/
def fieldValue (stod : Stod) (attributes : List DataType) (call : FieldCall) : Except Fault Data :=
  if call.bytes = [] then .ok .null
  else
    match attributes[call.colIdx]? with
    | some type => parseValue stod type call.bytes
    | none => .error .outOfRange

/-- `TableParser::on_field`. With a header `row_off_` is `-1`. -/
def onField (stod : Stod) (attributes : List DataType) (header : Bool) (parser : TableParser)
    (call : FieldCall) : Except Fault TableParser :=
  let rowOff : Int := if header then -1 else 0
  if call.rowIdx + rowOff = -1 then .ok parser
  else do
    let value ← fieldValue stod attributes call
    let record := parser.lastRecord ++ [value]
    if call.colIdx + 1 = attributes.length then
      let table ← addRecord attributes parser.fullTable record
      .ok { lastRecord := [], fullTable := table }
    else .ok { parser with lastRecord := record }

/-! ## The conversion -/

/-- The columns that thread `threadId` of `filter_tp.run(task, num_tasks)` takes. -/
def FilterThreadPool.columnsOf (n numTasks threadId : Nat) : List Nat :=
  match rangeOf n threadId ((), numTasks) with
  | some (_, first, last) => List.range' first (last - first)
  | none => []

/-- `task` on one column. `ret_rows` is kept in `numRows`, where it is loaded in the end. -/
def convertColumn (fresh : Nat → Nat → Page) (table : InnerTable) (results : List UInt8)
    (ret : ColumnarTable) (columnIdx : Nat) : Except Fault ColumnarTable :=
  match table.columns[columnIdx]?, ret.columns[columnIdx]? with
  | some inner, some column => do
    let (pages, filteredRows) ← (fromInnerToColumn (fresh columnIdx) inner results
      table.rows).mapError fun _ => .outOfRange
    .ok {
      numRows := filteredRows
      columns := ret.columns.set columnIdx { column with pages := pages } }
  | _, _ => .error .outOfRange

/-- The end of `from_csv`, on `n` threads that take their columns by turns in the order `sched`.
`retRows` is what `ret_rows` holds before a column is converted: it is not initialised. -/
def convert (n : Nat) (sched : List Nat) (fresh : Nat → Nat → Page) (retRows : Nat)
    (table : InnerTable) : Except Fault ColumnarTable :=
  let results := List.replicate ((table.rows + 7) / 8) 0xff
  (complete n (FilterThreadPool.columnsOf n table.columns.length) sched).foldlM
    (fun ret x => convertColumn fresh table results ret x.2)
    { numRows := retRows, columns := table.columns.map fun column => ⟨column.type, []⟩ }

/-! ## The file -/

/-- `Table::from_csv` on the buffers that `fread` delivers. -/
def fromCsv (n : Nat) (sched : List Nat) (fresh : Nat → Nat → Page) (retRows : Nat) (stod : Stod)
    (attributes : List DataType) (header : Bool) (buffers : List (List UInt8)) :
    Except Fault ColumnarTable :=
  let parser : CSVParser := { escape := backslash }
  let r := CSVParser.andThen (parser.feed buffers) CSVParser.finish
  do
    let tableParser ← r.2.fields.foldlM (onField stod attributes header) (.start attributes)
    if r.1 = .ok then convert n sched fresh retRows tableParser.fullTable
    else .error (.runtimeError "CSV parse error")

end HashJoin
