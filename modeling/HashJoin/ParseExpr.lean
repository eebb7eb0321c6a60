import HashJoin.FromClause
import HashJoin.Statement

/-!
# Splitting a `WHERE` clause

`parse_expr` takes the conjuncts of a `WHERE` clause apart: an equality of two columns is handed to
`join_union.unite`, and any other conjunct becomes part of the filter of its table.
-/

namespace HashJoin

/-! ## Expressions -/

/-- The `hsql::OperatorType`s that compare. -/
inductive CompareOp where
  | equals
  | notEquals
  | less
  | lessEq
  | greater
  | greaterEq
  deriving DecidableEq

def CompareOp.toOp : CompareOp → Op
  | less => .lt
  | lessEq => .leq
  | greater => .gt
  | greaterEq => .geq
  | equals => .eq
  | notEquals => .neq

/-- A column, with or without its table. -/
structure ColumnRef where
  table : Option String
  name : String
  deriving DecidableEq

/-- An `hsql::Expr` next to a comparison. -/
inductive Operand where
  | columnRef (ref : ColumnRef)
  | literalInt (ival : Int64)
  | literalString (name : List UInt8)
  /-- Of another type, given by its name. -/
  | other (exprType : String)
  deriving DecidableEq

/-- An `hsql::Expr` that is a condition. -/
inductive Expr where
  | and (expr expr2 : Expr)
  | or (expr expr2 : Expr)
  | not (expr : Expr)
  | compare (op : CompareOp) (expr expr2 : Operand)
  | like (negated : Bool) (expr expr2 : Operand)
  | between (expr low high : Operand)
  | in (expr : Operand) (exprList : List Operand)
  | isNull (expr : Operand)
  /-- Any other operator. -/
  | otherOperator (opType : String)
  /-- No operator at all. -/
  | other (exprType : String)
  deriving DecidableEq

/-! ## Columns -/

/-- `extract_column_and_table`. `junk` is the number in an entity that is not assigned. -/
def extractColumnAndTable (scope : Scope) (columnToTables : String → Option (List String))
    (junk : Int) (expr : ColumnRef) : Except String (String × TableEntity) :=
  let column := expr.name
  match expr.table with
  | some table =>
    match scope.aliasMap table with
    | some entity => .ok (column, entity)
    | none =>
      match scope.tableCounts table with
      | some count =>
        if count = 1 then .ok (column, ⟨table, 0⟩) else .error s!"Ambiguous table: {table}"
      | none => .error s!"Unknown table name: {table}"
  | none =>
    match columnToTables column with
    | some [table] =>
      match scope.tableCounts table with
      | some count =>
        if count = 1 then .ok (column, ⟨table, 0⟩) else .error s!"Ambiguous table: {table}"
      -- a table that is not in the `FROM` list leaves the entity as it is
      | none => .ok (column, ⟨"", junk⟩)
    | some tables =>
      let names := String.intercalate ", " tables
      .error s!"Ambiguous column: {column}, {names} have column {column}"
    | none => .error s!"No such column: {column}"

/-- `assert_column`, which gives the column. -/
def assertColumn : Operand → Except String ColumnRef
  | .columnRef ref => .ok ref
  | _ => .error "left side of \"Equals\" condition must be a ColumnRef"

/-- The number of a column in `column_map`. -/
def Scope.columnNumber (scope : Scope) (column : String) (entity : TableEntity) :
    Except String Nat :=
  match scope.columnMap entity with
  | none => .error s!"No  table: ({entity.table}, {entity.id})"
  | some numbers =>
    match numbers column with
    | some idx => .ok idx
    | none => .error s!"No column: {column} in table: ({entity.table}, {entity.id})"

/-- The value of a literal. -/
def Operand.literal : Operand → Except String Literal
  | .literalInt ival => .ok (.int64 ival)
  | .literalString name => .ok (.varchar name)
  | .columnRef _ => .error "Expression type: kExprColumnRef not processed"
  | .other exprType => .error s!"Expression type: {exprType} not processed"

/-! ## Filters -/

/-- What a `unique_ptr<Statement>` owns: a filter, or a tree of `LogicalOperation`s with a null
child somewhere, which no evaluation survives. -/
inductive Filter where
  | statement (stmt : Statement)
  | nullChild
  deriving DecidableEq

namespace Filter

def makeAnd : Filter → Filter → Filter
  | statement l, statement r => statement (.and l r)
  | _, _ => nullChild

def makeOr : Filter → Filter → Filter
  | statement l, statement r => statement (.or l r)
  | _, _ => nullChild

def makeNot : Option Filter → Filter
  | some (statement child) => statement (.not child)
  | _ => nullChild

end Filter

/-- The out-parameters of `parse_expr`: the filters, and the calls of `join_union.unite` in order,
as the union is not read here. -/
structure ParseState where
  filters : TableEntity → Option Filter := fun _ => none
  united : List (Nat × Nat) := []

/-- `insert_filter`. -/
def ParseState.insertFilter (state : ParseState) (entity : TableEntity) (stmt : Filter) :
    ParseState :=
  match state.filters entity with
  | none => { state with filters := Function.update state.filters entity (some stmt) }
  | some old =>
    { state with filters := Function.update state.filters entity (some (old.makeAnd stmt)) }

/-- `out_statement` and `out_entity`. -/
structure ParseOut where
  statement : Option Filter
  entity : TableEntity

/-- A statement is inserted if there is one. -/
def ParseState.insertOut (state : ParseState) (out : ParseOut) : ParseState :=
  match out.statement with
  | some stmt => state.insertFilter out.entity stmt
  | none => state

/-! ## The parser -/

section Parse

variable (scope : Scope) (columnToTables : String → Option (List String)) (junk : List Bool → Int)

/-- Two sides that have to be filters of one table. -/
def combine (make : Filter → Filter → Filter) (left right : ParseOut) : Except String ParseOut :=
  match left.statement, right.statement with
  | some l, some r =>
    if left.entity ≠ right.entity then .error "Filter can not be pushed down"
    else .ok ⟨some (make l r), left.entity⟩
  | _, _ => .error "Non top level contains join condition instead of filter"

def parseCompare (op : CompareOp) (expr expr2 : Operand) (state : ParseState) :
    Except String (ParseOut × ParseState) := do
  let left ← assertColumn expr
  let (leftColumn, leftEntity) ← extractColumnAndTable scope columnToTables (junk [false]) left
  match expr2 with
  | .columnRef right =>
    let (rightColumn, rightEntity) ← extractColumnAndTable scope columnToTables (junk [true]) right
    if op ≠ .equals then .error "Non-EuqalJoins are not supported"
    else
      let leftIdx ← scope.columnNumber leftColumn leftEntity
      let rightIdx ← scope.columnNumber rightColumn rightEntity
      .ok (⟨none, ⟨"", junk []⟩⟩, { state with united := state.united ++ [(leftIdx, rightIdx)] })
  | _ =>
    let value ← expr2.literal
    let idx ← columnIdx leftColumn leftEntity
    .ok (⟨some (.statement (.comparison idx op.toOp value)), leftEntity⟩, state)

def parseLike (negated : Bool) (expr expr2 : Operand) : Except String ParseOut := do
  let left ← assertColumn expr
  let (leftColumn, leftEntity) ← extractColumnAndTable scope columnToTables (junk [false]) left
  match expr2 with
  | .literalString name =>
    let idx ← columnIdx leftColumn leftEntity
    let op := if negated then .notLike else .like
    .ok ⟨some (.statement (.comparison idx op (.varchar name))), leftEntity⟩
  | .literalInt _ => .error "Expression type: kExprLiteralInt not processed"
  | .columnRef _ => .error "Expression type: kExprColumnRef not processed"
  | .other exprType => .error s!"Expression type: {exprType} not processed"

def parseBetween (expr low high : Operand) : Except String ParseOut := do
  let left ← assertColumn expr
  let (leftColumn, leftEntity) ← extractColumnAndTable scope columnToTables (junk [false]) left
  let low ← low.literal
  let high ← high.literal
  let idx ← columnIdx leftColumn leftEntity
  let stmt1 := Filter.statement (.comparison idx .geq low)
  let stmt2 := Filter.statement (.comparison idx .leq high)
  .ok ⟨some (stmt1.makeAnd stmt2), leftEntity⟩

/-- The statement of `IN` after one more item of its list. -/
def parseItem (leftColumn : String) (leftEntity : TableEntity) (out : Option Filter)
    (item : Operand) : Except String (Option Filter) := do
  let value ← item.literal
  let idx ← columnIdx leftColumn leftEntity
  let stmt := Filter.statement (.comparison idx .eq value)
  match out with
  | none => .ok (some stmt)
  | some out => .ok (some (out.makeOr stmt))

def parseIn (expr : Operand) (exprList : List Operand) : Except String ParseOut := do
  let left ← assertColumn expr
  let (leftColumn, leftEntity) ← extractColumnAndTable scope columnToTables (junk [false]) left
  let out ← exprList.foldlM (parseItem leftColumn leftEntity) none
  .ok ⟨out, leftEntity⟩

def parseIsNull (expr : Operand) : Except String ParseOut := do
  let child ← assertColumn expr
  let (childColumn, childEntity) ← extractColumnAndTable scope columnToTables (junk [false]) child
  let idx ← columnIdx childColumn childEntity
  .ok ⟨some (.statement (.comparison idx .isNull .null)), childEntity⟩

/-- `parse_expr_impl`. The entities that are not assigned are told apart by the path of the call. -/
def parseExprImpl : (junk : List Bool → Int) → (level : Nat) → Expr → ParseState →
    Except String (ParseOut × ParseState)
  | junk, level, .and expr expr2, state => do
    let (left, state) ← parseExprImpl (fun path => junk (false :: path)) level expr state
    let (right, state) ← parseExprImpl (fun path => junk (true :: path)) level expr2 state
    if level = 0 then
      .ok (⟨none, ⟨"", junk []⟩⟩, (state.insertOut left).insertOut right)
    else
      let out ← combine .makeAnd left right
      .ok (out, state)
  | junk, level, .or expr expr2, state => do
    let (left, state) ← parseExprImpl (fun path => junk (false :: path)) (level + 1) expr state
    let (right, state) ← parseExprImpl (fun path => junk (true :: path)) (level + 1) expr2 state
    let out ← combine .makeOr left right
    .ok (out, state)
  | junk, level, .not expr, state => do
    let (child, state) ← parseExprImpl (fun path => junk (false :: path)) (level + 1) expr state
    -- the child of an equality of columns is null
    .ok (⟨some (.makeNot child.statement), child.entity⟩, state)
  | junk, _, .compare op expr expr2, state =>
    parseCompare scope columnToTables junk op expr expr2 state
  | junk, _, .like negated expr expr2, state => do
    .ok (← parseLike scope columnToTables junk negated expr expr2, state)
  | junk, _, .between expr low high, state => do
    .ok (← parseBetween scope columnToTables junk expr low high, state)
  | junk, _, .in expr exprList, state => do
    .ok (← parseIn scope columnToTables junk expr exprList, state)
  | junk, _, .isNull expr, state => do
    .ok (← parseIsNull scope columnToTables junk expr, state)
  | _, _, .otherOperator opType, _ => .error s!"Operator type: {opType} not processed"
  | _, _, .other exprType, _ => .error s!"Expression type: {exprType} not processed"

/-- `parse_expr`. -/
def parseExpr (expr : Expr) (state : ParseState) : Except String ParseState := do
  let (top, state) ← parseExprImpl scope columnToTables junk 0 expr state
  .ok (state.insertOut top)

end Parse

end HashJoin
