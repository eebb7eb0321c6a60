import HashJoin.ParseExpr
import HashJoin.Value

/-!
# Parsing a query

`parse_sql` numbers the columns of the `FROM` list, splits the `WHERE` clause, and makes a join
graph of the classes of equal columns: an edge between two tables for each two of their columns in
one class.
-/

namespace HashJoin

/-! ## Disjoint sets -/

structure DSU where
  pa : List Nat

namespace DSU

def new (size : Nat) : DSU := ⟨List.range size⟩

/-- `find`, with at most `fuel` calls inside each other. -/
def findFuel : (fuel : Nat) → DSU → Nat → Except Fault (Nat × DSU)
  | 0, _, _ => .error .stackOverflow
  | fuel + 1, dsu, x => do
    let p ← at? dsu.pa x
    if p = x then .ok (x, dsu)
    else
      let (root, dsu) ← findFuel fuel dsu p
      .ok (root, ⟨dsu.pa.set x root⟩)

/-- `find`. A path to the root is not longer than the vector. -/
def find (dsu : DSU) (x : Nat) : Except Fault (Nat × DSU) := findFuel dsu.pa.length dsu x

/-- `unite`, which finds the right side of its assignment first. -/
def unite (dsu : DSU) (x y : Nat) : Except Fault DSU := do
  let (rootY, dsu) ← dsu.find y
  let (rootX, dsu) ← dsu.find x
  .ok ⟨dsu.pa.set rootX rootY⟩

/-- Two numbers are in one class. -/
def Same (dsu : DSU) (x y : Nat) : Prop :=
  ∃ root, (dsu.find x).map Prod.fst = .ok root ∧ (dsu.find y).map Prod.fst = .ok root

end DSU

/-! ## The join graph -/

/-- The order in which an `unordered_map` or `unordered_set` is gone through, at each place. -/
structure IterationOrder (α : Type) where
  order : List Bool → List α → List α
  perm : ∀ path l, (order path l).Perm l

/-- An item joins the class of its root, or starts it. -/
def addToClass (classes : List (Nat × List Nat)) (set i : Nat) : List (Nat × List Nat) :=
  if classes.any (·.1 = set) then
    classes.map fun cls => if cls.1 = set then (set, cls.2 ++ [i]) else cls
  else classes ++ [(set, [i])]

/-- `joined_columns`. -/
def joinedColumns (dsu : DSU) (columnCount : Nat) :
    Except Fault (List (Nat × List Nat) × DSU) :=
  (List.range columnCount).foldlM (fun (classes, dsu) i => do
    let (set, dsu) ← dsu.find i
    .ok (addToClass classes set i, dsu)) ([], dsu)

/-- For two tables the columns that join them. -/
abbrev JoinGraph := TableEntity × TableEntity → Option (String × String)

/-- The pairs of an item and a later one. -/
def laterPairs {α : Type} : List α → List (α × α)
  | [] => []
  | a :: l => l.map (a, ·) ++ laterPairs l

/-- Two columns of one class join their tables. -/
def addEdge (columnVec : List (TableEntity × String)) (graph : JoinGraph) (items : Nat × Nat) :
    Except Fault JoinGraph := do
  let (leftEntity, leftColumn) ← at? columnVec items.1
  let (rightEntity, rightColumn) ← at? columnVec items.2
  if (graph (leftEntity, rightEntity)).isSome then
    .error (.runtimeError "At least two conditions between a same pair of tables.")
  else
    let graph := emplace graph (leftEntity, rightEntity) (leftColumn, rightColumn)
    .ok (emplace graph (rightEntity, leftEntity) (rightColumn, leftColumn))

/-- `join_graph`, from the classes in the order in which they are gone through. -/
def joinGraph (columnVec : List (TableEntity × String)) (classes : List (Nat × List Nat)) :
    Except Fault JoinGraph :=
  classes.foldlM (fun graph cls => (laterPairs cls.2).foldlM (addEdge columnVec) graph)
    fun _ => none

/-! ## Queries -/

/-- An entry of the select list. -/
inductive SelectItem where
  | columnRef (ref : ColumnRef)
  | functionRef (exprList : List Operand)
  | other (exprType : String)

/-- A `SELECT` from a list of named tables with a `WHERE` clause, as the parser of the library
gives it. -/
structure Query where
  selectList : List SelectItem
  fromTable : List (String × Option String)
  whereClause : Expr

/-- `ParsedSQL`, with the equalities that were handed to `join_union`, and the union itself. -/
structure ParsedSQL where
  scope : Scope
  outputAttrs : List (TableEntity × String)
  filters : TableEntity → Option Filter
  united : List (Nat × Nat)
  joinUnion : DSU
  joinGraph : JoinGraph

/-- What the program does not determine in `parse_sql`: the numbers in entities that are not
assigned, of the select list and of the `WHERE` clause, and the order of `joined_columns`. -/
structure ParseEnv where
  selectJunk : Nat → Int
  whereJunk : List Bool → Int
  classes : IterationOrder (Nat × List Nat)

section Parse

variable (scope : Scope) (columnToTables : String → Option (List String))

def selectColumn (junk : Nat → Int) (attrs : List (TableEntity × String)) (expr : ColumnRef) :
    Except String (List (TableEntity × String)) := do
  let (column, entity) ← extractColumnAndTable scope columnToTables (junk attrs.length) expr
  .ok (attrs ++ [(entity, column)])

def selectItem (junk : Nat → Int) (attrs : List (TableEntity × String)) :
    SelectItem → Except String (List (TableEntity × String))
  | .columnRef ref => selectColumn scope columnToTables junk attrs ref
  | .functionRef exprList =>
    exprList.foldlM (fun attrs child =>
      match child with
      | .columnRef ref => selectColumn scope columnToTables junk attrs ref
      | _ => .error "Complex select expressions are not supported") attrs
  | .other exprType => .error s!"Not supported expression type in select list: {exprType}."

end Parse

/-- `parse_sql`. -/
def parseSQL (columnToTables : String → Option (List String)) (env : ParseEnv) (query : Query) :
    Except Fault ParsedSQL := do
  let scope ← (fromClause query.fromTable).mapError .runtimeError
  let outputAttrs ← (query.selectList.foldlM (selectItem scope columnToTables env.selectJunk)
    []).mapError .runtimeError
  let state ← (parseExpr scope columnToTables env.whereJunk query.whereClause {}).mapError
    .runtimeError
  let columnCount := scope.columnVec.length
  let joinUnion ← state.united.foldlM (fun dsu pair => dsu.unite pair.1 pair.2) (.new columnCount)
  let (classes, joinUnion) ← joinedColumns joinUnion columnCount
  let joinGraph ← joinGraph scope.columnVec (env.classes.order [] classes)
  .ok ⟨scope, outputAttrs, state.filters, state.united, joinUnion, joinGraph⟩

end HashJoin
