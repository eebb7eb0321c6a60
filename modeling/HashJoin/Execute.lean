import HashJoin.Join
import HashJoin.Lib.Relational
import HashJoin.Materialize

/-!
# Executing a plan

`execute` evaluates the nodes of a plan from its root on, and writes the columns of the root to a
table. `Plan.eval` is what a plan means: a scan projects the rows of its table, and a join is the
inner equi-join of its children.
-/

namespace HashJoin

open Relational

/-! ## Plans -/

/-- `ScanNode` or `JoinNode`. The executor does not look at `build_left`. -/
inductive NodeData where
  | scan (baseTableId : Nat)
  | join (left right leftAttr rightAttr : Nat)

structure PlanNode where
  data : NodeData
  outputAttrs : List (Nat × DataType)

structure Plan where
  nodes : List PlanNode
  inputs : List ColumnarTable
  root : Nat

/-- What is outside the program at a node: its join, and what the NULL rows of each scanned column
leave in `val`. -/
structure NodeEnv where
  join : JoinEnv
  junk : Nat → Nat → Nat → Int32

/-! ## The executor -/

/-- `execute_scan`. -/
def executeScan (inputs : List ColumnarTable) (junk : Nat → Nat → Nat → Int32) (tableId : Nat)
    (outputAttrs : List (Nat × DataType)) : Except Fault (List ColumnT) := do
  let input ← at? inputs tableId
  outputAttrs.zipIdx.mapM fun (attr, idx) => do
    let column ← at? input.columns attr.1
    .ok (buildColumnInserter tableId attr.1 column column.type (junk idx))

/-- `execute_impl` and `execute_hash_join`. The surroundings of a node are given by its path, as a
node with two parents is executed twice. With more calls inside each other than there are nodes
the recursion does not end. -/
def executeImpl (plan : Plan) (numThreads : Nat) : (fuel : Nat) → (env : List Bool → NodeEnv) →
    (nodeIdx : Nat) → GlobalAllocator → Except Fault (List ColumnT × GlobalAllocator)
  | 0, _, _, _ => .error .stackOverflow
  | fuel + 1, env, nodeIdx, global => do
    let node ← at? plan.nodes nodeIdx
    match node.data with
    | .join leftIdx rightIdx leftAttr rightAttr => do
      let (left, global) ←
        executeImpl plan numThreads fuel (fun path => env (false :: path)) leftIdx global
      let (right, global) ←
        executeImpl plan numThreads fuel (fun path => env (true :: path)) rightIdx global
      JoinAlgorithm.run ⟨left, right, leftAttr, rightAttr, node.outputAttrs⟩ (env []).join
        numThreads global
    | .scan baseTableId => do
      let results ← executeScan plan.inputs (env []).junk baseTableId node.outputAttrs
      .ok (results, global)

/-- `execute`; `fresh` gives the contents of the new pages of each column and thread. -/
def execute (plan : Plan) (numThreads : Nat) (env : List Bool → NodeEnv)
    (fresh : Nat → Nat → Nat → Page) (global : GlobalAllocator) :
    Except Fault (ColumnarTable × GlobalAllocator) := do
  let (ret, global) ← executeImpl plan numThreads plan.nodes.length env plan.root global
  let node ← at? plan.nodes plan.root
  let table ← materialize plan.inputs ret (node.outputAttrs.map Prod.snd) fresh numThreads
  .ok (table, global)

/-! ## The meaning of a plan -/

/-- The columns that a node outputs, of its table or of the rows of its children side by side. -/
def PlanNode.attrs (node : PlanNode) : List Nat := node.outputAttrs.map Prod.fst

/-- The rows of a node over any type of values. `scan` gives those of some columns of a table. -/
def evalNode {α K : Type} [DecidableEq K] (key : α → Option K)
    (scan : Nat → List Nat → List (List α)) (nodes : List PlanNode) (nodeIdx : Nat) :
    List (List α) :=
  match nodes[nodeIdx]? with
  | none => []
  | some node =>
    match node.data with
    | .scan baseTableId => scan baseTableId node.attrs
    | .join left right leftAttr rightAttr =>
      if _h : left < nodeIdx ∧ right < nodeIdx then
        (equiJoin key leftAttr rightAttr (evalNode key scan nodes left)
          (evalNode key scan nodes right)).map (project node.attrs)
      else []
termination_by nodeIdx

section

variable {α K : Type} [DecidableEq K] {key : α → Option K} {scan : Nat → List Nat → List (List α)}
  {nodes : List PlanNode} {nodeIdx : Nat} {node : PlanNode}

theorem evalNode_scan (hnode : nodes[nodeIdx]? = some node) {tableId : Nat}
    (hdata : node.data = .scan tableId) :
    evalNode key scan nodes nodeIdx = scan tableId node.attrs := by
  rw [evalNode, hnode]
  simp only [hdata]

theorem evalNode_join (hnode : nodes[nodeIdx]? = some node) {l r a b : Nat}
    (hdata : node.data = .join l r a b) (hl : l < nodeIdx) (hr : r < nodeIdx) :
    evalNode key scan nodes nodeIdx =
      (equiJoin key a b (evalNode key scan nodes l) (evalNode key scan nodes r)).map
        (project node.attrs) := by
  rw [evalNode, hnode]
  simp only [hdata]
  rw [dif_pos ⟨hl, hr⟩]

/-- The meaning of a plan does not depend on how its values are represented. -/
theorem evalNode_map {β : Type} (f : β → α) {scan' : Nat → List Nat → List (List β)}
    (hscan : ∀ (idx : Nat) (node : PlanNode) (tableId : Nat), nodes[idx]? = some node →
      node.data = .scan tableId →
        scan tableId node.attrs = (scan' tableId node.attrs).map (List.map f)) (nodeIdx : Nat) :
    evalNode key scan nodes nodeIdx =
      (evalNode (key ∘ f) scan' nodes nodeIdx).map (List.map f) := by
  induction nodeIdx using Nat.strong_induction_on with
  | _ nodeIdx ih =>
    rw [evalNode, evalNode]
    cases hnode : nodes[nodeIdx]? with
    | none => rfl
    | some node =>
      simp only
      cases hdata : node.data with
      | scan tableId => exact hscan nodeIdx node tableId hnode hdata
      | join l r a b =>
        simp only
        split
        · next h =>
          rw [ih l h.1, ih r h.2, equiJoin_map, List.map_map, List.map_map]
          exact List.map_congr_left fun row _ => project_map f _ row
        · rfl

/-- What holds for the values of all scans holds for all values. -/
theorem evalNode_forall {P : α → Prop} (hscan : ∀ (idx : Nat) (node : PlanNode) (tableId : Nat),
      nodes[idx]? = some node → node.data = .scan tableId →
        ∀ row ∈ scan tableId node.attrs, ∀ v ∈ row, P v) (nodeIdx : Nat) :
    ∀ row ∈ evalNode key scan nodes nodeIdx, ∀ v ∈ row, P v := by
  induction nodeIdx using Nat.strong_induction_on with
  | _ nodeIdx ih =>
    intro row hrow v hv
    rw [evalNode] at hrow
    cases hnode : nodes[nodeIdx]? with
    | none => simp [hnode] at hrow
    | some node =>
      simp only [hnode] at hrow
      cases hdata : node.data with
      | scan tableId =>
        simp only [hdata] at hrow
        exact hscan nodeIdx node tableId hnode hdata row hrow v hv
      | join l r a b =>
        simp only [hdata] at hrow
        split at hrow
        · next h =>
          obtain ⟨pair, hpair, rfl⟩ := List.mem_map.mp hrow
          obtain ⟨x, hx, y, hy, -, rfl⟩ := (mem_equiJoin key a b).mp hpair
          rcases List.mem_append.mp (mem_of_mem_project hv) with hv | hv
          · exact ih l h.1 x hx v hv
          · exact ih r h.2 y hy v hv
        · simp at hrow

end

end HashJoin
