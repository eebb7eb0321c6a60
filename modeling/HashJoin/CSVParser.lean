import Mathlib.Tactic

/-!
# The CSV parser

`CSVParser::execute` consumes one buffer, `CSVParser::finish` ends the input. Deciding what a
byte means can need the byte after it (an LF after a CR, the byte after a quote or an escape);
when that byte lies in the next buffer, `execute` returns early and leaves `newlining` or
`escaping` set for the head of the next call.

The virtual `on_field` is modelled by its calls, in order, in `fields`.
-/

namespace HashJoin

/-- `CSVParser::Error`. -/
inductive CSVError where
  | ok
  | quoteNotClosed
  | inconsistentColumns
  | noTrailingComma
  deriving DecidableEq, Repr

/-- One call `on_field(col_idx, row_idx, begin, len)`. -/
structure FieldCall where
  colIdx : Nat
  rowIdx : Nat
  bytes : List UInt8
  deriving DecidableEq, Repr

def lf : UInt8 := 10
def cr : UInt8 := 13
def quote : UInt8 := 34
def backslash : UInt8 := 92

structure CSVParser where
  escape : UInt8 := quote
  comma : UInt8 := 44
  hasTrailingComma : Bool := false
  currentField : List UInt8 := []
  colIdx : Nat := 0
  rowIdx : Nat := 0
  numCols : Nat := 0
  afterFirstRow : Bool := false
  quoted : Bool := false
  afterFieldSep : Bool := false
  afterRecordSep : Bool := false
  escaping : Bool := false
  newlining : Bool := false
  fields : List FieldCall := []
  deriving DecidableEq, Repr

namespace CSVParser

/-- `current_field_.push_back(c)`. -/
def push (p : CSVParser) (c : UInt8) : CSVParser :=
  { p with currentField := p.currentField ++ [c] }

/-- `on_field` on the current field, which is then cleared. -/
def onField (p : CSVParser) : CSVParser :=
  { p with
    fields := p.fields ++ [⟨p.colIdx, p.rowIdx, p.currentField⟩]
    currentField := [] }

/-- The end of a loop iteration: both separator flags are overwritten. -/
def endIter (p : CSVParser) (fieldSep recordSep : Bool) : CSVParser :=
  { p with afterFieldSep := fieldSep, afterRecordSep := recordSep }

def nextRecord (p : CSVParser) : CSVParser :=
  { p with colIdx := 0, rowIdx := p.rowIdx + 1 }

/-- The record-end code. The source has it twice, at the head of `execute` and in its loop. -/
def endRecord (p : CSVParser) : CSVError × CSVParser :=
  if p.hasTrailingComma then
    if !p.afterFieldSep then (.noTrailingComma, p)
    else if !p.afterFirstRow then
      (.ok, nextRecord { p with afterFirstRow := true, numCols := p.colIdx })
    else if p.colIdx ≠ p.numCols then (.inconsistentColumns, p)
    else (.ok, nextRecord p)
  else
    if !p.afterFirstRow then
      (.ok, nextRecord (onField { p with afterFirstRow := true, numCols := p.colIdx + 1 }))
    else if p.colIdx + 1 ≠ p.numCols then (.inconsistentColumns, p)
    else (.ok, nextRecord (onField p))

/-- What one iteration of the loop of `execute` does: return from `execute`, or go on with a
new state, having also consumed the byte after (`skip`, the `++i` inside the body) or not. -/
inductive Iter where
  | stop (e : CSVError) (q : CSVParser)
  | next (q : CSVParser) (skip : Bool)

/-- The body of the `for` loop at byte `c`; `ahead` is `buffer[i + 1]`, `none` if
`i + 1 == len`. -/
def iter (p : CSVParser) (c : UInt8) (ahead : Option UInt8) : Iter :=
  if c ≠ p.comma ∧ c ≠ lf ∧ c ≠ cr ∧ c ≠ quote ∧ c ≠ p.escape then
    .next ((p.push c).endIter false false) false
  else if c = p.comma then
    if !p.quoted then
      .next ({ p.onField with colIdx := p.colIdx + 1 }.endIter true false) false
    else .next ((p.push c).endIter false false) false
  else if c = lf ∨ c = cr then
    if !p.quoted then
      if c = cr ∧ ahead = none then .stop .ok { p with newlining := true }
      else
        match p.endRecord with
        | (.ok, q) => .next (q.endIter false true) (c = cr ∧ ahead = some lf)
        | (e, q) => .stop e q
    else .next ((p.push c).endIter false false) false
  else if c = quote then
    if p.escape = quote then
      if !p.quoted then .next ({ p with quoted := true }.endIter false false) false
      else
        match ahead with
        | none => .stop .ok { p with escaping := true }
        | some d =>
          if d = quote then .next ((p.push c).endIter false false) true
          else .next ({ p with quoted := false }.endIter false false) false
    else .next ({ p with quoted := !p.quoted }.endIter false false) false
  else
    if p.quoted then
      match ahead with
      | none => .stop .ok { p with escaping := true }
      | some d =>
        if d = quote ∨ d = p.escape then .next ((p.push d).endIter false false) true
        else .next ((p.push p.escape).endIter false false) false
    else .next ((p.push c).endIter false false) false

/-- The `for` loop of `execute` over the bytes not yet consumed. -/
def loop (p : CSVParser) : List UInt8 → CSVError × CSVParser
  | [] => (.ok, p)
  | c :: rest =>
    match p.iter c rest.head? with
    | .stop e q => (e, q)
    | .next q false => loop q rest
    | .next q true =>
      match rest with
      | [] => (.ok, q)
      | _ :: rest' => loop q rest'

/-- The resumption of an escape left pending by the previous buffer: the new state and the
number of bytes it consumed. -/
def resumeEscaping (p : CSVParser) (buffer : List UInt8) : CSVParser × Nat :=
  if p.escaping then
    let c := buffer.headD 0
    if p.escape = quote then
      if c = quote then ({ p.push quote with escaping := false }, 1)
      else ({ p with quoted := false, escaping := false }, 0)
    else
      if c = quote ∨ c = p.escape then ({ p.push c with escaping := false }, 1)
      else ({ p.push p.escape with escaping := false }, 0)
  else (p, 0)

/-- `CSVParser::execute`. -/
def execute (p : CSVParser) (buffer : List UInt8) : CSVError × CSVParser :=
  match p.resumeEscaping buffer with
  | (p, i) =>
    if p.newlining then
      let i := if buffer.head? = some lf then i + 1 else i
      match p.endRecord with
      | (.ok, q) => loop { q with afterRecordSep := true, newlining := false } (buffer.drop i)
      | (e, q) => (e, q)
    else loop p (buffer.drop i)

/-- `CSVParser::finish`. -/
def finish (p : CSVParser) : CSVError × CSVParser :=
  if p.quoted then (.quoteNotClosed, p)
  else if p.newlining then p.execute []
  else if !p.afterRecordSep then p.execute [lf]
  else (.ok, p)

/-- Continue after `Ok`; stop at the first error, as `from_csv` does. -/
def andThen (r : CSVError × CSVParser) (k : CSVParser → CSVError × CSVParser) :
    CSVError × CSVParser :=
  match r with
  | (.ok, p) => k p
  | (e, p) => (e, p)

/-- The read loop of `Table::from_csv`: `execute` on each buffer in turn. -/
def feed (p : CSVParser) : List (List UInt8) → CSVError × CSVParser
  | [] => (.ok, p)
  | b :: bs => andThen (p.execute b) fun q => q.feed bs

end CSVParser

end HashJoin
