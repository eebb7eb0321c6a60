import HashJoin.Execute
import HashJoin.ParseSQL

/-!
# Generating a plan

`load_join_pipeline` follows the plan of another database. A join takes as its key an edge of the
join graph between the tables of its two sides, asks each side for the attributes it needs and for
the column of the edge, and finds them again by name among the columns that the sides return. A scan
loads its table before it looks for its attributes, so that the plan is given up where a table
cannot be loaded.
-/

namespace HashJoin

/-! ## Plan trees -/

/-- The nodes of the given plan. A `Hash Join` says which of its children are `Hash` nodes; of these
`left` or `right` is the child. -/
inductive PlanTree where
  /-- `Aggregate` or `Gather`, of which the first child counts. -/
  | other (plan : PlanTree)
  | hashJoin (leftHash rightHash : Bool) (left right : PlanTree)
  /-- `Nested Loop` or `Merge Join`. -/
  | otherJoin
  /-- `Seq Scan` or `Index Only Scan`. -/
  | scan (aliasName relationName : Option String)
  | unsupported (nodeType : String)
  deriving DecidableEq

/-- `extract_entities`. -/
def extractEntities (aliasMap : String → Option TableEntity) :
    PlanTree → Except Fault (List TableEntity)
  | .other plan => extractEntities aliasMap plan
  | .hashJoin leftHash rightHash left right =>
    if leftHash = rightHash then
      .error (.runtimeError "Hash Join should have at least one Hash child")
    else do
      let leftEntities ← extractEntities aliasMap left
      let rightEntities ← extractEntities aliasMap right
      .ok (leftEntities.union rightEntities)
  | .otherJoin => .error (.runtimeError "Not Hash Join")
  | .scan none _ => .error (.runtimeError "No \"Alias\" in scan node")
  | .scan (some aliasName) _ =>
    match aliasMap aliasName with
    | some entity => .ok [entity]
    | none => .error (.runtimeError s!"Cannot find alias: {aliasName}")
  | .unsupported nodeType => .error (.runtimeError s!"Not supported node type: {nodeType}")

/-! ## The plan that is made -/

/-- A column that a node returns. -/
structure OutputColumn where
  entity : TableEntity
  column : String
  type : DataType
  deriving DecidableEq

/-- The plan made so far. `build_left` of each join is kept beside the nodes. An input is given by
the table and the filter it is loaded with; the loaded tables are in the state of the loader.
`required` is not in the program: it says for each node which attributes it was made for. -/
structure Pipeline where
  nodes : List PlanNode := []
  buildLeft : List (Option Bool) := []
  inputs : List (TableEntity × Option Filter) := []
  required : List (List (TableEntity × String)) := []

namespace Pipeline

/-- `new_join_node`. -/
def newJoinNode (ret : Pipeline) (required : List (TableEntity × String))
    (buildLeft : Bool) (left right leftAttr rightAttr : Nat)
    (outputAttrs : List (Nat × DataType)) : Nat × Pipeline :=
  (ret.nodes.length, { ret with
    nodes := ret.nodes ++ [⟨.join left right leftAttr rightAttr, outputAttrs⟩]
    buildLeft := ret.buildLeft ++ [some buildLeft]
    required := ret.required ++ [required] })

/-- `new_scan_node`. -/
def newScanNode (ret : Pipeline) (required : List (TableEntity × String)) (baseTableId : Nat)
    (outputAttrs : List (Nat × DataType)) : Nat × Pipeline :=
  (ret.nodes.length, { ret with
    nodes := ret.nodes ++ [⟨.scan baseTableId, outputAttrs⟩]
    buildLeft := ret.buildLeft ++ [none]
    required := ret.required ++ [required] })

/-- `new_input`. -/
def newInput (ret : Pipeline) (entity : TableEntity) (filter : Option Filter) : Nat × Pipeline :=
  (ret.inputs.length, { ret with inputs := ret.inputs ++ [(entity, filter)] })

end Pipeline

/-! ## Attributes -/

/-- An edge of the join graph between a table of the left and a table of the right side. -/
structure Edge where
  leftEntity : TableEntity
  rightEntity : TableEntity
  leftColumn : String
  rightColumn : String

/-- The edges between two sides. The loop over them keeps the last. -/
def crossingEdges (graph : JoinGraph) (leftEntities rightEntities : List TableEntity) : List Edge :=
  leftEntities.flatMap fun entity => rightEntities.filterMap fun adj =>
    (graph (entity, adj)).map fun columns => ⟨entity, adj, columns.1, columns.2⟩

/-- A required attribute goes to the side that has its table. -/
def splitRequired (leftEntities rightEntities : List TableEntity) :
    List (TableEntity × String) →
      Except Fault (List (TableEntity × String) × List (TableEntity × String))
  | [] => .ok ([], [])
  | attr :: required =>
    if attr.1 ∈ leftEntities then do
      let (left, right) ← splitRequired leftEntities rightEntities required
      .ok (attr :: left, right)
    else if attr.1 ∈ rightEntities then do
      let (left, right) ← splitRequired leftEntities rightEntities required
      .ok (left, attr :: right)
    else
      .error (.runtimeError
        "Required attributes cannot be found in neither left child nor right child.")

/-- The attributes of a side with that of the join, unless it is there. -/
def withAttr (required : List (TableEntity × String)) (attr : TableEntity × String) :
    List (TableEntity × String) :=
  if attr ∈ required then required else required ++ [attr]

/-- The first column of the name, with its position. -/
def findColumn (columns : List OutputColumn) (attr : TableEntity × String) :
    Option (OutputColumn × Nat) :=
  columns.zipIdx.find? fun (col, _) => col.entity = attr.1 ∧ col.column = attr.2

/-- The output of a node for an attribute, with its position among the columns it comes from. -/
def resolveAttr (columns : List OutputColumn) (attr : TableEntity × String) :
    Except Fault (OutputColumn × Nat) :=
  match findColumn columns attr with
  | some (col, inputIdx) => .ok (⟨attr.1, attr.2, col.type⟩, inputIdx)
  | none =>
    let entity := attr.1
    let column := attr.2
    let name := s!"({entity.table}, {entity.id}).{column}"
    .error (.runtimeError s!"Cannot found the required attr: {name} in children's output")

/-- `output_attrs`. -/
def outputAttrs (outputs : List (OutputColumn × Nat)) : List (Nat × DataType) :=
  outputs.map fun output => (output.2, output.1.type)

/-- The columns of a table of the schema. -/
def tableColumns (entity : TableEntity) (attributes : List Attribute) : List OutputColumn :=
  attributes.map fun attr => ⟨entity, attr.name, attr.type⟩

/-! ## The recursion -/

/-- The table of a scan. -/
def scanEntity (scope : Scope) : (aliasName relationName : Option String) →
    Except Fault TableEntity
  | some aliasName, _ =>
    match scope.aliasMap aliasName with
    | some entity => .ok entity
    | none => .error (.runtimeError s!"Cannot find alias: {aliasName}")
  | none, some relationName =>
    match scope.tableCounts relationName with
    | some count =>
      if count = 1 then .ok ⟨relationName, 0⟩
      else .error (.runtimeError s!"Table {relationName} is used at least twice")
    | none => .error (.runtimeError s!"Cannot find table: {relationName}")
  | none, none =>
    .error (.runtimeError "Neither \"Alias\" nor \"Relation Name\" exists in scan node")

/-- How the table of a scan is loaded: `Table::from_csv` or `Table::from_cache`, or the code that
dumps it. The call gets the number of the input, the table and its filter. What it leaves behind,
the loaded table among it, is in the state `σ`. -/
abbrev Loader (σ : Type) := Nat → TableEntity × Option Filter → σ → Except Fault σ

section Recurse

variable {σ : Type} (load : Loader σ)

/-- `recurse` at a scan. -/
def recurseScan (sql : ParsedSQL) (aliasName relationName : Option String)
    (required : List (TableEntity × String)) (ret : Pipeline) (state : σ) :
    Except Fault (((Nat × List OutputColumn) × Pipeline) × σ) := do
  let entity ← scanEntity sql.scope aliasName relationName
  match attributesMap entity.table with
  | none => .error (.runtimeError s!"Cannot find attributes for table: {entity.table}")
  | some attributes =>
    let state ← load ret.inputs.length (entity, sql.filters entity) state
    let (newInputId, ret) := ret.newInput entity (sql.filters entity)
    let outputs ← required.mapM (resolveAttr (tableColumns entity attributes))
    let (newNodeId, ret) := ret.newScanNode required newInputId (outputAttrs outputs)
    .ok (((newNodeId, outputs.map Prod.fst), ret), state)

/-- The edge that the loop over the sets of the two sides ends with. -/
def lastEdge (edges : List Edge) : Except Fault Edge :=
  match edges.getLast? with
  | some edge => .ok edge
  | none => .error (.runtimeError "Cannot find join condition")

/-- The end of `recurse` at a join, after its two sides. -/
def finishJoin (required : List (TableEntity × String)) (buildLeft : Bool) (edge : Edge)
    (left right : Nat × List OutputColumn) (ret : Pipeline) :
    Except Fault ((Nat × List OutputColumn) × Pipeline) := do
  match findColumn left.2 (edge.leftEntity, edge.leftColumn),
      findColumn right.2 (edge.rightEntity, edge.rightColumn) with
  | some (_, leftAttr), some (_, rightAttr) =>
    let outputs ← required.mapM (resolveAttr (left.2 ++ right.2))
    let (newNodeId, ret) := ret.newJoinNode required buildLeft left.1 right.1 leftAttr rightAttr
      (outputAttrs outputs)
    .ok ((newNodeId, outputs.map Prod.fst), ret)
  | _, _ => .error (.runtimeError "Join conditions are not set properly")

/-- `recurse`. The order of the edges between two sides is that of the sets of tables; it is told
apart by the path of the call. -/
def recurse (sql : ParsedSQL) : (order : List Bool → List Edge → List Edge) → PlanTree →
    (required : List (TableEntity × String)) → Pipeline → σ →
    Except Fault (((Nat × List OutputColumn) × Pipeline) × σ)
  | order, .other plan, required, ret, state =>
    recurse sql (fun path => order (false :: path)) plan required ret state
  | order, .hashJoin leftHash rightHash left right, required, ret, state => do
    if leftHash = rightHash then
      .error (.runtimeError "Hash Join should have at least one Hash child")
    else
      let leftEntities ← extractEntities sql.scope.aliasMap left
      let rightEntities ← extractEntities sql.scope.aliasMap right
      let edge ← lastEdge (order [] (crossingEdges sql.joinGraph leftEntities rightEntities))
      let (leftRequired, rightRequired) ← splitRequired leftEntities rightEntities required
      let ((left, ret), state) ← recurse sql (fun path => order (false :: path)) left
        (withAttr leftRequired (edge.leftEntity, edge.leftColumn)) ret state
      let ((right, ret), state) ← recurse sql (fun path => order (true :: path)) right
        (withAttr rightRequired (edge.rightEntity, edge.rightColumn)) ret state
      let result ← finishJoin required leftHash edge left right ret
      .ok (result, state)
  | _, .otherJoin, _, _, _ => .error (.runtimeError "Not Hash Join")
  | _, .scan aliasName relationName, required, ret, state =>
    recurseScan load sql aliasName relationName required ret state
  | _, .unsupported nodeType, _, _, _ =>
    .error (.runtimeError s!"Not supported node type: {nodeType}")

/-- `load_join_pipeline`, which returns the plan and its root. -/
def loadJoinPipeline (sql : ParsedSQL) (order : IterationOrder Edge) (plan : PlanTree)
    (state : σ) : Except Fault ((Pipeline × Nat) × σ) := do
  let (((root, _), ret), state) ← recurse load sql order.order plan sql.outputAttrs {} state
  .ok ((ret, root), state)

end Recurse

end HashJoin
