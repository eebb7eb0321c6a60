import HashJoin.HashTable

/-!
# The hash join

`JoinAlgorithm::run` builds the table on the smaller side and probes it with the pages or the
buffers of the other key column. A thread takes the next of them from a counter, and writes its
rows to result columns of its own, which are put together at the end.
-/

namespace HashJoin

open Chunks

/-- What is outside the program during a join: the build, and the threads in the order in which
they call `fetch_add` on the work counter. -/
structure JoinEnv where
  build : BuildEnv
  order : List Nat

/-- `OutputMapping`. -/
structure OutputMapping where
  /-- Also says which is `target_side`. -/
  useLeft : Bool
  colIdx : Nat

structure JoinAlgorithm where
  left : List ColumnT
  right : List ColumnT
  leftCol : Nat
  rightCol : Nat
  outputAttrs : List (Nat × DataType)

/-- Writes a value behind the last one of a result column. -/
def ColumnT.emplace (col : ColumnT) (val : Value) : ColumnT :=
  { col with buffers := pushBack 1024 col.buffers val, numRows := col.numRows + 1 }

/-- The state of the threads while they probe. -/
structure ProbeState where
  workCounter : Nat
  threadResults : Nat → List ColumnT

/-- A call of `fetch_add` by thread `t`, and the work on the chunk that it is given. That work reads
what all threads share and writes only what is the thread's own. -/
def ProbeState.step (numChunks : Nat) (probe : Nat → List ColumnT → Except Fault (List ColumnT))
    (s : ProbeState) (t : Nat) : Except Fault ProbeState :=
  let idx := s.workCounter
  if idx < numChunks then do
    let results ← probe idx (s.threadResults t)
    .ok ⟨idx + 1, Function.update s.threadResults t results⟩
  else .ok { s with workCounter := idx + 1 }

/-- All threads probe until the chunks are used up: first in the given order, after which thread 0
takes those that are left. -/
def runProbe (numThreads numChunks : Nat) (order : List Nat)
    (probe : Nat → List ColumnT → Except Fault (List ColumnT)) (s : ProbeState) :
    Except Fault ProbeState :=
  (order.filter (· < numThreads) ++ List.replicate numChunks 0).foldlM
    (ProbeState.step numChunks probe) s

/-- Copies a value to `current_buf`, which is pushed before when it is full. -/
def copyValue (b : List (List Value) × List Value) (val : Value) :
    List (List Value) × List Value :=
  if b.2.length = 1024 then (b.1 ++ [b.2], [val]) else (b.1, b.2 ++ [val])

/-- A result column, from those of the threads. -/
def mergeColumn (threadCols : List ColumnT) : ColumnT :=
  let totalRows := (threadCols.map ColumnT.numRows).sum
  if totalRows = 0 then {}
  else
    let (buffers, currentBuf) := threadCols.foldl
      (fun b col => col.buffers.foldl (fun b buf => buf.foldl copyValue b) b) ([], [])
    { buffers := close buffers currentBuf, numRows := totalRows }

namespace JoinAlgorithm

variable (j : JoinAlgorithm)

def mapping (attr : Nat × DataType) : OutputMapping :=
  if attr.1 < j.left.length then ⟨true, attr.1⟩ else ⟨false, attr.1 - j.left.length⟩

/-- The value of an output column for two rows. -/
def outputValue (leftRowIdx rightRowIdx : Nat) (m : OutputMapping) : Except Fault Value := do
  let side ← at? (if m.useLeft then j.left else j.right) m.colIdx
  side.getValue (if m.useLeft then leftRowIdx else rightRowIdx)

/-- One row of the result, output column by output column. -/
def emit (leftRowIdx rightRowIdx : Nat) (results : List ColumnT) : Except Fault (List ColumnT) :=
  ((j.outputAttrs.map j.mapping).zip results).mapM fun (m, resCol) => do
    let val ← j.outputValue leftRowIdx rightRowIdx m
    .ok (resCol.emplace val)

/-- The loop over the entries that `lookup` finds for the key of a row. -/
def probeKey (buildLeft : Bool) (table : HashTable) (key : Int32) (probeIdx : Nat)
    (results : List ColumnT) : Except Fault (List ColumnT) :=
  (table.entriesIn (table.lookup key)).foldlM (fun results entry =>
    if entry.key ≠ key then .ok results
    else
      let buildIdx := entry.rowIdx.toNat
      let leftRowIdx := if buildLeft then buildIdx else probeIdx
      let rightRowIdx := if buildLeft then probeIdx else buildIdx
      j.emit leftRowIdx rightRowIdx results) results

/-- The number of pages or buffers of the probe column. -/
def numChunks (probeColumn : ColumnT) : Nat :=
  match probeColumn.originalCol with
  | some original => original.pages.length
  | none => probeColumn.buffers.length

/-- The rows of one page or buffer. -/
def probeChunk (buildLeft : Bool) (table : HashTable) (probeColumn : ColumnT) (idx : Nat)
    (results : List ColumnT) : Except Fault (List ColumnT) :=
  match probeColumn.originalCol with
  | some original => do
    let page ← at? original.pages idx
    let baseIdx ← at? probeColumn.pageRowids idx
    (List.range (page.u16 0)).foldlM (fun results i => do
      let key ← Page.readAt Int32 page (4 + 4 * i)
      j.probeKey buildLeft table key (baseIdx + i) results) results
  | none => do
    let buffer ← at? probeColumn.buffers idx
    buffer.zipIdx.foldlM (fun results (val, i) =>
      if val.status ≠ 0 then j.probeKey buildLeft table val.val (idx * 1024 + i) results
      else .ok results) results

/-- The result columns of all threads, put together. -/
def merge (numThreads : Nat) (threadResults : Nat → List ColumnT) : Except Fault (List ColumnT) :=
  (List.range j.outputAttrs.length).mapM fun outIdx => do
    let threadCols ← (List.range numThreads).mapM fun t => at? (threadResults t) outIdx
    .ok (mergeColumn threadCols)

/-- The part of `run` after the sides are chosen. -/
def buildAndProbe (env : JoinEnv) (numThreads : Nat) (global : GlobalAllocator) (buildLeft : Bool)
    (buildColumn probeColumn : ColumnT) : Except Fault (List ColumnT × GlobalAllocator) := do
  let table ← HashTable.new env.build buildColumn.numRows
  let (table, global) ← buildParallel env.build buildColumn numThreads global table
  let s ← runProbe numThreads (numChunks probeColumn) env.order
    (j.probeChunk buildLeft table probeColumn)
    ⟨0, fun _ => List.replicate j.outputAttrs.length {}⟩
  let results ← j.merge numThreads s.threadResults
  .ok (results, global)

/-- `run`. -/
def run (env : JoinEnv) (numThreads : Nat) (global : GlobalAllocator) :
    Except Fault (List ColumnT × GlobalAllocator) := do
  let leftColVal ← at? j.left j.leftCol
  let rightColVal ← at? j.right j.rightCol
  if leftColVal.numRows = 0 ∨ rightColVal.numRows = 0 then
    .ok (List.replicate j.outputAttrs.length {}, global)
  else if leftColVal.numRows ≤ rightColVal.numRows then
    j.buildAndProbe env numThreads global true leftColVal rightColVal
  else j.buildAndProbe env numThreads global false rightColVal leftColVal

end JoinAlgorithm

end HashJoin
