import HashJoin.Alloc
import HashJoin.Lib.Interleave

/-!
# The unchained hash table

A directory of words, each a 48-bit pointer over a 16-bit Bloom filter, and the entries sorted by
slot. The threads first partition the rows by the top bits of their hashes into their own chunks,
then build the directory and copy the entries partition by partition.
-/

namespace HashJoin

open Interleave

/-- `UnchainedHashTable::Entry`. -/
structure Entry where
  key : Int32
  rowIdx : UInt32
  deriving DecidableEq

/-- What is outside the program during a build: where `new` puts the entries, what the memory of
the chunks holds, and the order in which the threads take their steps in the two phases. -/
structure BuildEnv where
  tuples : Nat
  /-- Addresses of user space have 47 bits. -/
  tuples_lt : tuples < 2 ^ 47
  memory : Ptr → Entry
  partitioning : List Nat
  postProcessing : List Nat

/-! ## Partitioning -/

inductive PartitionStep where
  | consume (e : Entry)
  | store (e : Entry)

/-- The state that the threads share in the first phase, their own states, and the variable `entry`
of each. -/
structure PartitionState where
  global : GlobalAllocator
  threads : Nat → ThreadLocalState
  entry : Nat → Ptr
  memory : Ptr → Entry

def PartitionState.step (s : PartitionState) : Nat × PartitionStep → PartitionState
  | (t, .consume e) =>
    let (ptr, global, tls) := ThreadLocalState.consume (crcHash e.key) s.global (s.threads t)
    { s with
      global := global
      threads := Function.update s.threads t tls
      entry := Function.update s.entry t ptr }
  | (t, .store e) => { s with memory := Function.update s.memory (s.entry t) e }

/-- The entries of the rows of a slice, of which NULL rows have none. -/
def sliceEntries (col : ColumnT) (rows : List Nat) : Except Fault (List Entry) := do
  let values ← rows.mapM col.getValue
  .ok ((rows.zip values).filterMap fun (row, v) => v.key.map fun key => ⟨key, UInt32.ofNat row⟩)

def partitionSteps (entries : List Entry) : List PartitionStep :=
  entries.flatMap fun e => [.consume e, .store e]

/-- The number of large chunks for which `build_parallel` reserves memory. -/
def numLargeChunks (totalTuples numThreads : Nat) : Nat :=
  let tuplesPerLarge := 4096 / 8 * (65536 / 4096)
  let baseChunks := (totalTuples + tuplesPerLarge - 1) / tuplesPerLarge
  let overheadChunks := numThreads * ((64 * 4096 + 65536 - 1) / 65536 + 1)
  baseChunks + overheadChunks

/-- The first phase, for the entries of each thread. -/
def partitionRows (env : BuildEnv) (numThreads : Nat) (global : GlobalAllocator)
    (entries : Nat → List Entry) : PartitionState :=
  (complete numThreads (fun t => partitionSteps (entries t)) env.partitioning).foldl
    PartitionState.step
    { global := global
      threads := fun _ => {}
      entry := fun _ => {}
      memory := env.memory }

/-! ## The table -/

structure HashTable where
  /-- `directory[-1]`. -/
  before : UInt64
  directory : Nat → UInt64
  /-- Where the entries are, and the entry at each address. -/
  tuples : Nat
  memory : Nat → Entry
  shift : UInt64
  capacity : Nat

/-- The loop over `shift_val`; `1 << shift_val` is an `int`. -/
def findShift (sz shiftVal : Nat) : Except Fault Nat :=
  if 31 ≤ shiftVal then .error .overflow
  else if 2 ^ shiftVal ≤ sz then findShift sz (shiftVal + 1)
  else .ok shiftVal
termination_by 31 - shiftVal

/-- The constructor. -/
def HashTable.new (env : BuildEnv) (sz : Nat) : Except Fault HashTable := do
  let shiftVal ← findShift sz 9
  .ok
    { before := UInt64.ofNat env.tuples <<< 16
      directory := fun _ => 0
      tuples := env.tuples
      memory := fun _ => ⟨0, 0⟩
      shift := UInt64.ofNat (64 - shiftVal)
      capacity := 2 ^ shiftVal }

/-! ## Post-processing -/

/-- The steps of `postProcessBuild`, in their order there. -/
inductive BuildStep where
  /-- `directory[slot] += sizeof(Entry) << 16`. -/
  | count (e : Entry)
  /-- `directory[slot] |= tags[..]`. -/
  | tag (e : Entry)
  /-- `cur = tuples + prevCount`. -/
  | start (prevCount : Nat)
  /-- The body of the loop over the slots. -/
  | sum (i : Nat)
  /-- `*target = tuple`. -/
  | place (e : Entry)
  /-- `directory[slot] += sizeof(Entry) << 16` once more. -/
  | advance (e : Entry)

/-- The table, and the variable `cur` of the call for each partition. -/
structure BuildState where
  table : HashTable
  cur : Nat → UInt64

namespace BuildState

def setDirectory (s : BuildState) (i : Nat) (word : UInt64) : BuildState :=
  { s with table := { s.table with directory := Function.update s.table.directory i word } }

/-- One step of the call for partition `p`. -/
def step (s : BuildState) (p : Nat) : BuildStep → BuildState
  | .count e | .advance e =>
    let slot := slotOf s.table.shift (crcHash e.key)
    s.setDirectory slot (s.table.directory slot + (8 : UInt64) <<< 16)
  | .tag e =>
    let slot := slotOf s.table.shift (crcHash e.key)
    s.setDirectory slot (s.table.directory slot ||| (tagOf (crcHash e.key)).toUInt64)
  | .start prevCount =>
    { s with cur := Function.update s.cur p (UInt64.ofNat (s.table.tuples + 8 * prevCount)) }
  | .sum i =>
    let val := s.table.directory i >>> 16
    let cur := s.cur p
    { s.setDirectory i (cur <<< 16 ||| (s.table.directory i).toUInt16.toUInt64) with
      cur := Function.update s.cur p (cur + val) }
  | .place e =>
    let target := s.table.directory (slotOf s.table.shift (crcHash e.key)) >>> 16
    { s with table := { s.table with memory := Function.update s.table.memory target.toNat e } }

/-- A step of a thread, in the call for a partition. -/
def threadStep (s : BuildState) (x : Nat × Nat × BuildStep) : BuildState := s.step x.2.1 x.2.2

end BuildState

/-- The steps of `postProcessBuild` for a partition with the given entries. -/
def postProcessBuild (shift : UInt64) (partition prevCount : Nat) (entries : List Entry) :
    List BuildStep :=
  let k := 64 - shift.toNat
  let start := partition * 2 ^ k / 64
  let «end» := (partition + 1) * 2 ^ k / 64
  entries.flatMap (fun e => [.count e, .tag e]) ++
    .start prevCount :: (List.range' start («end» - start)).map .sum ++
    entries.flatMap fun e => [.place e, .advance e]

/-- The partitions of a thread. -/
def partitionsOf (numThreads t : Nat) : List Nat :=
  List.range' t ((64 - t + numThreads - 1) / numThreads) numThreads

/-- What the first phase leaves for the second: the entries of each partition, thread by thread. -/
def PartitionState.entries (s : PartitionState) (numThreads p : Nat) : List Entry :=
  (List.range numThreads).flatMap fun t =>
    (ThreadLocalState.entriesInPartition (s.threads t) p).map s.memory

/-- `count_total`. -/
def PartitionState.countTotal (s : PartitionState) (numThreads p : Nat) : Nat :=
  ((List.range numThreads).map fun t => (s.threads t).counts p).sum

/-- `partition_offsets`. -/
def PartitionState.partitionOffset (s : PartitionState) (numThreads p : Nat) : Nat :=
  ((List.range p).map (s.countTotal numThreads)).sum

/-- The steps of a thread in the second phase, each with its partition. -/
def PartitionState.buildSteps (s : PartitionState) (shift : UInt64) (numThreads t : Nat) :
    List (Nat × BuildStep) :=
  (partitionsOf numThreads t).flatMap fun p =>
    (postProcessBuild shift p (s.partitionOffset numThreads p) (s.entries numThreads p)).map
      (Prod.mk p)

/-- The second phase. -/
def buildDirectory (env : BuildEnv) (numThreads : Nat) (s : PartitionState) (table : HashTable) :
    HashTable :=
  ((complete numThreads (s.buildSteps table.shift numThreads) env.postProcessing).foldl
    BuildState.threadStep ⟨table, fun _ => 0⟩).table

/-- `build_parallel`. -/
def buildParallel (env : BuildEnv) (col : ColumnT) (numThreads : Nat) (global : GlobalAllocator)
    (table : HashTable) : Except Fault (HashTable × GlobalAllocator) := do
  let global := global.reset.reserve (numLargeChunks col.numRows numThreads)
  let entries ← (List.range numThreads).mapM fun t =>
    sliceEntries col (sliceRows col.numRows numThreads t)
  let s := partitionRows env numThreads global fun t => entries.getD t []
  .ok (buildDirectory env numThreads s table, s.global)

/-! ## Lookup -/

namespace HashTable

def couldContain (entry : UInt16) (hash : UInt64) : Bool := tagOf hash &&& ~~~entry == 0

/-- The bounds of the entries to look at, or two null pointers. -/
def lookup (table : HashTable) (key : Int32) : UInt64 × UInt64 :=
  let hash := crcHash key
  let slot := slotOf table.shift hash
  let entry := table.directory slot
  if !couldContain entry.toUInt16 hash then (0, 0)
  else
    let previous := if slot = 0 then table.before else table.directory (slot - 1)
    (previous >>> 16, entry >>> 16)

/-- The entries that the loop over a half-open range sees. -/
def entriesIn (table : HashTable) (range : UInt64 × UInt64) : List Entry :=
  (List.range ((range.2.toNat - range.1.toNat + 7) / 8)).map fun i =>
    table.memory (range.1.toNat + 8 * i)

end HashTable

end HashJoin
