import HashJoin.HashTableProof
import HashJoin.Lib.Owners

/-!
# How many large chunks a build takes

`build_parallel` reserves as many large chunks as the rows would fill, and five for each thread.
But the first eight bytes of a chunk are a link, so that a small chunk has 511 entries and a large
one 15 small chunks, and every partition of every thread has a chunk of its own that it does not
fill. The number of chunks that the threads ask for depends on the rows of each partition only, not
on the order of the threads.
-/

namespace HashJoin

open Interleave Owners

/-! ## One level -/

/-- A chunk of `data` bytes has room for `cap` items of `size` bytes, and for no more. -/
structure ChunkRoom (cap size data : Nat) : Prop where
  size_pos : 0 < size
  cap_pos : 0 < cap
  fits : size * cap ≤ data
  full : data < size * (cap + 1)

/-- The allocator has handed out `n` items, and took a chunk only when the one before was full. -/
def BumpAllocator.Handed (cap size data : Nat) (b : BumpAllocator) (n : Nat) : Prop :=
  b.chunks = [] ∧ b.freeSpace = 0 ∧ n = 0 ∨
    ∃ used, 0 < used ∧ used ≤ cap ∧ b.freeSpace = data - size * used ∧
      n + cap = cap * b.chunks.length + used

namespace BumpAllocator.Handed

variable {cap size data n : Nat} {b : BumpAllocator}

theorem empty : ({} : BumpAllocator).Handed cap size data 0 := .inl ⟨rfl, rfl, rfl⟩

/-- The chunks are the items divided by the room of a chunk, rounded up. -/
theorem length_chunks (h : b.Handed cap size data n) (hroom : ChunkRoom cap size data) :
    b.chunks.length = (n + cap - 1) / cap := by
  have hcap := hroom.cap_pos
  rcases h with ⟨hchunks, -, rfl⟩ | ⟨used, hpos, hle, -, hcount⟩
  · rw [hchunks]
    exact (Nat.div_eq_of_lt (by omega)).symm
  · have hsum : n + cap - 1 = cap * b.chunks.length + (used - 1) := by omega
    rw [hsum, Nat.mul_add_div hcap, Nat.div_eq_of_lt (by omega), Nat.add_zero]

/-- An item from the newest chunk. -/
theorem allocate (h : b.Handed cap size data n) (hroom : ChunkRoom cap size data)
    (hfree : ¬ b.freeSpace < size) : (b.allocate size).2.Handed cap size data (n + 1) := by
  have hsize := hroom.size_pos
  rcases h with ⟨-, hzero, -⟩ | ⟨used, hpos, hle, hspace, hcount⟩
  · omega
  · have hused : used < cap := by
      have hlt : size * (used + 1) < size * (cap + 1) := by
        have := hroom.full
        rw [Nat.mul_succ]
        omega
      exact Nat.lt_of_succ_lt_succ (Nat.lt_of_mul_lt_mul_left hlt)
    refine .inr ⟨used + 1, by omega, hused, ?_, ?_⟩
    · unfold freeSpace at hspace hfree ⊢
      simp only [BumpAllocator.allocate, Ptr.off_add, Nat.mul_succ]
      omega
    · simp only [BumpAllocator.allocate]
      omega

/-- An item from a new chunk, the one before being full. -/
theorem addSpace (h : b.Handed cap size data n) (hroom : ChunkRoom cap size data)
    (hfree : b.freeSpace < size) (chunk : Ptr) :
    ((b.addSpace (data + 8) chunk).allocate size).2.Handed cap size data (n + 1) := by
  have hcap := hroom.cap_pos
  refine .inr ⟨1, Nat.one_pos, hcap, ?_, ?_⟩
  · simp only [freeSpace, BumpAllocator.allocate, BumpAllocator.addSpace, Ptr.off_add]
    omega
  · simp only [BumpAllocator.allocate, BumpAllocator.addSpace, List.length_cons, Nat.mul_succ]
    rcases h with ⟨hchunks, -, rfl⟩ | ⟨used, hpos, hle, hspace, hcount⟩
    · rw [hchunks]
      simp
      omega
    · have hused : used = cap := by
        by_contra hne
        have hlt : size * (used + 1) ≤ size * cap := Nat.mul_le_mul_left _ (by omega)
        have := hroom.fits
        rw [Nat.mul_succ] at hlt
        omega
      omega

end BumpAllocator.Handed

/-! ## A thread -/

namespace ThreadLocalState

theorem smallRoom : ChunkRoom 511 8 4088 := ⟨by decide, by decide, by decide, by decide⟩

theorem largeRoom : ChunkRoom 15 4096 65528 := ⟨by decide, by decide, by decide, by decide⟩

/-- The number of small chunks in the partitions. -/
def smallChunks (tls : ThreadLocalState) : Nat :=
  ∑ p ∈ Finset.range 64, (tls.level3 p).chunks.length

/-- What a thread has taken from its levels. -/
structure Ledger (tls : ThreadLocalState) : Prop where
  level3 : ∀ p, (tls.level3 p).Handed 511 8 4088 (tls.counts p)
  level2 : tls.level2.Handed 15 4096 65528 tls.smallChunks

theorem ledger_empty : ({} : ThreadLocalState).Ledger :=
  ⟨fun _ => .empty, by
    have h : ({} : ThreadLocalState).smallChunks = 0 := Finset.sum_eq_zero fun _ _ => rfl
    rw [h]
    exact .empty⟩

/-- The large chunks of a thread with the given number of entries in each partition. -/
def largeDemand (counts : Nat → Nat) : Nat :=
  ((∑ p ∈ Finset.range 64, (counts p + 510) / 511) + 14) / 15

theorem Ledger.length_chunks {tls : ThreadLocalState} (h : tls.Ledger) :
    tls.level2.chunks.length = largeDemand tls.counts := by
  have hsmall : tls.smallChunks = ∑ p ∈ Finset.range 64, (tls.counts p + 510) / 511 :=
    Finset.sum_congr rfl fun p _ => (h.level3 p).length_chunks smallRoom
  rw [h.level2.length_chunks largeRoom, hsmall, Nat.add_sub_assoc (by decide)]
  rfl

/-- Setting the allocator of one partition. -/
theorem smallChunks_update (tls : ThreadLocalState) {part : Nat} (hpart : part < 64)
    (level2 : BumpAllocator) (b : BumpAllocator) (counts : Nat → Nat) :
    ThreadLocalState.smallChunks ⟨level2, Function.update tls.level3 part b, counts⟩ +
        (tls.level3 part).chunks.length =
      tls.smallChunks + b.chunks.length :=
  sum_update (Finset.range 64) tls.level3 (fun b => b.chunks.length) (Finset.mem_range.mpr hpart) b

/-- One more entry of a partition, from an allocator that had the others. -/
theorem Ledger.put {tls : ThreadLocalState} (h : tls.Ledger) {part : Nat} (hpart : part < 64)
    {level2 b : BumpAllocator} (hb : b.Handed 511 8 4088 (tls.counts part + 1))
    (hlevel2 : level2.Handed 15 4096 65528
      (tls.smallChunks + b.chunks.length - (tls.level3 part).chunks.length)) :
    Ledger ⟨level2, Function.update tls.level3 part b,
      Function.update tls.counts part (tls.counts part + 1)⟩ where
  level3 p := by
    by_cases hp : p = part
    · subst hp
      simpa using hb
    · simpa [Function.update_of_ne hp] using h.level3 p
  level2 := by
    rwa [← smallChunks_update tls hpart level2 b, Nat.add_sub_cancel] at hlevel2

/-- The room made in level 2 costs at most one large chunk. -/
theorem Ledger.ensureLevel2 {tls : ThreadLocalState} (h : tls.Ledger) (g : GlobalAllocator) :
    ((ThreadLocalState.ensureLevel2 g tls).2.level2.allocate 4096).2.Handed 15 4096 65528
        (tls.smallChunks + 1) ∧
      (ThreadLocalState.ensureLevel2 g tls).1.nextIdx + tls.level2.chunks.length =
        g.nextIdx + (ThreadLocalState.ensureLevel2 g tls).2.level2.chunks.length ∧
      (ThreadLocalState.ensureLevel2 g tls).1.arenaCapacity = g.arenaCapacity ∧
      (ThreadLocalState.ensureLevel2 g tls).2.level3 = tls.level3 ∧
      (ThreadLocalState.ensureLevel2 g tls).2.counts = tls.counts := by
  unfold ThreadLocalState.ensureLevel2
  split
  · next hfree =>
    refine ⟨h.level2.addSpace largeRoom hfree _, ?_, rfl, rfl, rfl⟩
    simp only [GlobalAllocator.allocate, BumpAllocator.addSpace, List.length_cons]
    omega
  · next hfree => exact ⟨h.level2.allocate largeRoom hfree, rfl, rfl, rfl, rfl⟩

/-- A call of `consume` keeps the ledger, and the global allocator counts the large chunk if it
takes one. -/
theorem Ledger.consume {tls : ThreadLocalState} (h : tls.Ledger) (g : GlobalAllocator)
    (hash : UInt64) :
    (ThreadLocalState.consume hash g tls).2.2.Ledger ∧
      (ThreadLocalState.consume hash g tls).2.1.nextIdx + tls.level2.chunks.length =
        g.nextIdx + (ThreadLocalState.consume hash g tls).2.2.level2.chunks.length ∧
      (ThreadLocalState.consume hash g tls).2.1.arenaCapacity = g.arenaCapacity := by
  have hpart := partitionOf_lt hash
  unfold ThreadLocalState.consume ThreadLocalState.ensureLevel3
  generalize partitionOf hash = part at hpart ⊢
  by_cases hfree : (tls.level3 part).freeSpace < 8
  · obtain ⟨hlevel2, hcount, hcap, hlevel3, hcounts⟩ := h.ensureLevel2 g
    generalize ThreadLocalState.ensureLevel2 g tls = room at hlevel2 hcount hcap hlevel3 hcounts ⊢
    obtain ⟨g', level2', level3', counts'⟩ := room
    obtain rfl : level3' = tls.level3 := hlevel3
    obtain rfl : counts' = tls.counts := hcounts
    have hb := (h.level3 part).addSpace smallRoom hfree (level2'.allocate 4096).1
    simp only [hfree, if_true, Function.update_self, Function.update_idem]
    refine ⟨h.put hpart hb ?_, hcount, hcap⟩
    have hone : tls.smallChunks + ((tls.level3 part).chunks.length + 1) -
        (tls.level3 part).chunks.length = tls.smallChunks + 1 := by omega
    simp only [BumpAllocator.allocate, BumpAllocator.addSpace, List.length_cons, hone]
    exact hlevel2
  · simp only [hfree, if_false]
    refine ⟨h.put hpart ((h.level3 part).allocate smallRoom hfree) ?_, trivial, trivial⟩
    simpa [BumpAllocator.allocate] using h.level2

end ThreadLocalState

/-! ## All threads -/

/-- Every thread has a ledger, and the global allocator has counted the large chunks of all. -/
structure PartitionState.Counted (numThreads cap : Nat) (s : PartitionState) : Prop where
  ledger : ∀ t, (s.threads t).Ledger
  nextIdx : s.global.nextIdx =
    ∑ t ∈ Finset.range numThreads, (s.threads t).level2.chunks.length
  arenaCapacity : s.global.arenaCapacity = cap

theorem PartitionState.Counted.step {numThreads cap : Nat} {s : PartitionState}
    (h : s.Counted numThreads cap) {x : Nat × PartitionStep} (hx : x.1 < numThreads) :
    (s.step x).Counted numThreads cap := by
  obtain ⟨t, a⟩ := x
  cases a with
  | store e => exact ⟨h.ledger, h.nextIdx, h.arenaCapacity⟩
  | consume e =>
    have ht : t < numThreads := hx
    obtain ⟨hledger, hcount, hcap⟩ := (h.ledger t).consume s.global (crcHash e.key)
    have hthreads : (s.step (t, .consume e)).threads = Function.update s.threads t
        (ThreadLocalState.consume (crcHash e.key) s.global (s.threads t)).2.2 := rfl
    have hglobal : (s.step (t, .consume e)).global =
        (ThreadLocalState.consume (crcHash e.key) s.global (s.threads t)).2.1 := rfl
    have hidx := h.nextIdx
    generalize ThreadLocalState.consume (crcHash e.key) s.global (s.threads t) = r at *
    refine ⟨fun u => ?_, ?_, by rw [hglobal, hcap, h.arenaCapacity]⟩
    · rw [hthreads]
      by_cases hu : u = t
      · subst hu
        rwa [Function.update_self]
      · rw [Function.update_of_ne hu]
        exact h.ledger u
    · have hsum := sum_update (Finset.range numThreads) s.threads
        (fun tls => tls.level2.chunks.length) (Finset.mem_range.mpr ht) r.2.2
      rw [hthreads, hglobal]
      omega

theorem partitionRows_counted (env : BuildEnv) (numThreads : Nat) {global : GlobalAllocator}
    (hglobal : global.nextIdx = 0) (entries : Nat → List Entry) :
    (partitionRows env numThreads global entries).Counted numThreads global.arenaCapacity := by
  unfold partitionRows
  refine List.foldlRecOn _ _ ?_ fun s hs x hx => hs.step (mem_complete hx).1
  refine ⟨fun _ => ThreadLocalState.ledger_empty, ?_, rfl⟩
  rw [hglobal]
  exact (Finset.sum_eq_zero fun _ _ => rfl).symm

/-! ## A build -/

/-- The non-NULL rows of the slice of thread `t` whose keys are in partition `p`. -/
def sliceCount (values : List Value) (numThreads t p : Nat) : Nat :=
  ((threadEntries values numThreads t).filter (·.partition = p)).length

/-- The large chunks that the threads need: of the small chunks of a thread, one for every 511 rows
of a partition or part of them, 15 go into a large one. -/
def chunkDemand (values : List Value) (numThreads : Nat) : Nat :=
  ∑ t ∈ Finset.range numThreads, ThreadLocalState.largeDemand (sliceCount values numThreads t)

theorem reserve_empty (n : Nat) :
    (({} : GlobalAllocator).reset.reserve n).arenaCapacity = n ∧
      (({} : GlobalAllocator).reset.reserve n).nextIdx = 0 := by
  unfold GlobalAllocator.reserve GlobalAllocator.reset
  split
  · next h => exact ⟨(Nat.le_zero.mp h).symm, rfl⟩
  · refine ⟨?_, rfl⟩
    show (n * 65536 + 4096 - 1) / 4096 * 4096 / 65536 = n
    omega

/-- The chunks that a build asks for are those that its rows need. -/
theorem buildParallel_nextIdx {col : ColumnT} (hcol : col.Valid) (numThreads : Nat)
    (env : BuildEnv) (table : HashTable) :
    ∃ table' global', buildParallel env col numThreads {} table = .ok (table', global') ∧
      global'.nextIdx = chunkDemand col.values numThreads ∧
      global'.arenaCapacity = numLargeChunks col.numRows numThreads := by
  obtain ⟨hcap, hidx⟩ := reserve_empty (numLargeChunks col.numRows numThreads)
  have hcounted : (partitionColumn env numThreads _ col.values).Counted numThreads _ :=
    partitionRows_counted env numThreads hidx _
  refine ⟨_, _, buildParallel_eq hcol numThreads env {} table, ?_, ?_⟩
  · rw [hcounted.nextIdx, chunkDemand]
    apply Finset.sum_congr rfl
    intro t ht
    rw [(hcounted.ledger t).length_chunks]
    refine congrArg ThreadLocalState.largeDemand (funext fun p => ?_)
    exact (partitionColumn_ok env _ col.values (Finset.mem_range.mp ht) p).2
  · rw [hcounted.arenaCapacity, hcap]

/-- Whatever the order of the threads, a build that starts from an empty allocator asks for no more
chunks than it reserved, and finds them all in the arena, if and only if its rows need no more. -/
theorem buildParallel_requests {col : ColumnT} (hcol : col.Valid) (numThreads : Nat)
    (env : BuildEnv) (table : HashTable) :
    ∃ table' global', buildParallel env col numThreads {} table = .ok (table', global') ∧
      (global'.nextIdx ≤ numLargeChunks col.numRows numThreads ∧
          global'.nextIdx ≤ global'.arenaCapacity ↔
        chunkDemand col.values numThreads ≤ numLargeChunks col.numRows numThreads) := by
  obtain ⟨table', global', hbuild, hnext, hcap⟩ := buildParallel_nextIdx hcol numThreads env table
  refine ⟨table', global', hbuild, ?_⟩
  rw [hnext, hcap, and_self]

/-- The rows of a slice are counted once in the partitions. -/
theorem sum_partition (entries : List Entry) :
    ∑ p ∈ Finset.range 64, (entries.filter (·.partition = p)).length = entries.length := by
  induction entries with
  | nil => rfl
  | cons e entries ih =>
    have hone : ∀ p, ((e :: entries).filter (·.partition = p)).length =
        (entries.filter (·.partition = p)).length + if p = e.partition then 1 else 0 := fun p => by
      by_cases hp : p = e.partition
      · subst hp
        simp
      · simp [hp, Ne.symm hp]
    have hmem : e.partition ∈ Finset.range 64 := Finset.mem_range.mpr (partitionOf_lt _)
    simp only [hone, Finset.sum_add_distrib, ih, Finset.sum_ite_eq', hmem, if_true,
      List.length_cons]

/-- Slices of at most 6195 rows need no more than the five chunks that each thread has in
reserve. -/
theorem chunkDemand_le (values : List Value) {numThreads : Nat}
    (hrows : rowsPerThread values.length numThreads ≤ 6195) :
    chunkDemand values numThreads ≤ numLargeChunks values.length numThreads := by
  have hthread : ∀ t, ThreadLocalState.largeDemand (sliceCount values numThreads t) ≤ 5 := by
    intro t
    have hlen : (threadEntries values numThreads t).length ≤ 6195 := by
      apply (List.length_filterMap_le _ _).trans
      unfold Chunks.slice
      rw [List.length_take]
      omega
    have hsum : ∑ p ∈ Finset.range 64, (sliceCount values numThreads t p + 510) ≤
        6195 + 64 * 510 := by
      rw [Finset.sum_add_distrib, Finset.sum_const, Finset.card_range, smul_eq_mul]
      exact Nat.add_le_add_right ((sum_partition _).le.trans hlen) _
    have hsmall : (∑ p ∈ Finset.range 64, (sliceCount values numThreads t p + 510) / 511) * 511 ≤
        6195 + 64 * 510 := by
      rw [Finset.sum_mul]
      exact (Finset.sum_le_sum fun p _ => Nat.div_mul_le_self _ _).trans hsum
    unfold ThreadLocalState.largeDemand
    omega
  calc chunkDemand values numThreads ≤ ∑ t ∈ Finset.range numThreads, 5 :=
        Finset.sum_le_sum fun t _ => hthread t
    _ = numThreads * 5 := by rw [Finset.sum_const, Finset.card_range, smul_eq_mul]
    _ ≤ numLargeChunks values.length numThreads := Nat.le_add_left _ _

/-- Three rows, one of them NULL, for two threads. -/
theorem buildParallel_requests_three :
    ∃ table' global', buildParallel ⟨4096, by decide, fun _ => ⟨0, 0⟩, [1, 0], [0, 1]⟩
        { buffers := [[.int32 7, .null 7, .int32 7]], numRows := 3 } 2 {}
        ⟨0, fun _ => 0, 4096, fun _ => ⟨0, 0⟩, 55, 512⟩ = .ok (table', global') ∧
      global'.nextIdx ≤ numLargeChunks 3 2 ∧ global'.nextIdx ≤ global'.arenaCapacity := by
  have hvalid : ({ buffers := [[.int32 7, .null 7, .int32 7]], numRows := 3 } : ColumnT).Valid :=
    ⟨rfl, fun _ => ⟨by simp, by simp⟩, nofun⟩
  obtain ⟨table', global', hbuild, hiff⟩ := buildParallel_requests hvalid 2
    ⟨4096, by decide, fun _ => ⟨0, 0⟩, [1, 0], [0, 1]⟩
    ⟨0, fun _ => 0, 4096, fun _ => ⟨0, 0⟩, 55, 512⟩
  exact ⟨table', global', hbuild, hiff.mpr (chunkDemand_le _ (by decide))⟩

/-! ## One thread with one key -/

theorem length_filter_columnEntries (n : Nat) (key : Int32) (p : Nat) :
    ((columnEntries (List.replicate n (.int32 key))).filter (·.partition = p)).length =
      if p = partitionOf (crcHash key) then n else 0 := by
  induction n with
  | zero => simp [columnEntries]
  | succ n ih =>
    have hentry : rowEntry (n, .int32 key) = some ⟨key, UInt32.ofNat n⟩ := rfl
    rw [List.replicate_succ', columnEntries_concat, List.length_replicate, hentry,
      List.filter_append, List.length_append, ih]
    by_cases hp : p = partitionOf (crcHash key)
    · subst hp
      simp [Entry.partition]
    · simp [Entry.partition, hp, Ne.symm hp]

theorem chunkDemand_replicate (n : Nat) (key : Int32) :
    chunkDemand (List.replicate n (.int32 key)) 1 = ((n + 510) / 511 + 14) / 15 := by
  have hentries : threadEntries (List.replicate n (.int32 key)) 1 0 =
      columnEntries (List.replicate n (.int32 key)) := by
    simpa using flatMap_threadEntries (List.replicate n (.int32 key)) Nat.one_pos
  have hcount : ∀ p, sliceCount (List.replicate n (.int32 key)) 1 0 p =
      if p = partitionOf (crcHash key) then n else 0 := fun p => by
    unfold sliceCount
    rw [hentries, length_filter_columnEntries]
  unfold chunkDemand
  rw [Finset.sum_range_one, ThreadLocalState.largeDemand]
  have hsum : ∑ p ∈ Finset.range 64,
      (sliceCount (List.replicate n (.int32 key)) 1 0 p + 510) / 511 = (n + 510) / 511 := by
    rw [Finset.sum_eq_single_of_mem (partitionOf (crcHash key))
      (Finset.mem_range.mpr (partitionOf_lt _)) fun p _ hp => by
        rw [hcount, if_neg hp]
        rfl, hcount, if_pos rfl]
  rw [hsum]

/-- A column that holds one key a thousand times 1024 times. -/
def thousandBuffers : ColumnT where
  buffers := List.replicate 1000 (List.replicate 1024 (.int32 7))
  numRows := 1024000

theorem thousandBuffers_values :
    thousandBuffers.values = List.replicate 1024000 (.int32 7) :=
  List.flatten_replicate_replicate

theorem thousandBuffers_valid : thousandBuffers.Valid where
  numRows := by rw [thousandBuffers_values, List.length_replicate]; rfl
  buffers _ := by
    have hlen : ∀ b ∈ thousandBuffers.buffers, b.length = 1024 := fun b hb => by
      rw [List.eq_of_mem_replicate hb, List.length_replicate]
    exact ⟨fun b hb => hlen b (List.mem_of_mem_dropLast hb), fun b hb => (hlen b hb).le⟩
  pages := nofun

/-- One thread reserves 130 large chunks for it, but asks for 134. -/
theorem not_buildParallel_requests :
    ∃ table' global', buildParallel ⟨4096, by decide, fun _ => ⟨0, 0⟩, [], []⟩ thousandBuffers 1 {}
        ⟨0, fun _ => 0, 4096, fun _ => ⟨0, 0⟩, 44, 2 ^ 20⟩ = .ok (table', global') ∧
      numLargeChunks 1024000 1 < global'.nextIdx ∧
      global'.arenaCapacity < global'.nextIdx := by
  obtain ⟨table', global', hbuild, hnext, hcap⟩ := buildParallel_nextIdx thousandBuffers_valid 1
    ⟨4096, by decide, fun _ => ⟨0, 0⟩, [], []⟩ ⟨0, fun _ => 0, 4096, fun _ => ⟨0, 0⟩, 44, 2 ^ 20⟩
  have hreserved : numLargeChunks 1024000 1 = 130 := by decide
  have hrows : thousandBuffers.numRows = 1024000 := rfl
  rw [thousandBuffers_values, chunkDemand_replicate] at hnext
  rw [hrows] at hcap
  exact ⟨table', global', hbuild, by omega, by omega⟩

end HashJoin
