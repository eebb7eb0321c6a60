import HashJoin.TableSizing

/-!
# The directory after any order of the steps

The calls of `postProcessBuild` keep to their own slots and their own part of the storage. When all
have run, in whatever order they took their steps, each word has the end of its slot in the storage
and the tags of its entries, and the storage has the entries sorted by slot.
-/

namespace HashJoin

open Interleave Buckets TaggedWord

/-! ## What a step touches -/

/-- A step of the call for partition `p` writes the slots of the partition, the tuples between its
offsets and the variable of the call at most, and what it writes depends on these only. The slot `i`
belongs to the partition `i / 2 ^ (k - 6)`. -/
structure Confined (k : Nat) (offset : Nat → Nat) (p : Nat) (b : BuildStep) (s : BuildState) :
    Prop where
  directory : ∀ i, i / 2 ^ (k - 6) ≠ p → (s.step p b).table.directory i = s.table.directory i
  memory : ∀ a, (∀ i, offset p ≤ i → i < offset (p + 1) → a ≠ s.table.tuples + 8 * i) →
    (s.step p b).table.memory a = s.table.memory a
  cur : ∀ q, q ≠ p → (s.step p b).cur q = s.cur q
  tuples : (s.step p b).table.tuples = s.table.tuples
  shift : (s.step p b).table.shift = s.table.shift
  capacity : (s.step p b).table.capacity = s.table.capacity
  before : (s.step p b).table.before = s.table.before
  reads : ∀ s', Same k s.table.tuples offset p s' s →
    Same k s.table.tuples offset p (s'.step p b) (s.step p b)

section

variable {k p : Nat} {offset : Nat → Nat} {b : BuildStep} {s : BuildState}

theorem setDirectory_of_ne {i j : Nat} (word : UInt64) (hi : i / 2 ^ (k - 6) = p)
    (hj : j / 2 ^ (k - 6) ≠ p) :
    (s.setDirectory i word).table.directory j = s.table.directory j := by
  have hji : j ≠ i := by
    rintro rfl
    exact hj hi
  exact Function.update_of_ne hji _ _

theorem Safe.confined (h : Safe k s.table.tuples offset p b s) : Confined k offset p b s := by
  refine ⟨fun i hi => ?_, fun a ha => ?_, fun q hq => ?_, s.step_tuples p b, s.step_shift p b,
    ?_, ?_, fun s' hs => hs.step h⟩
  · cases b with
    | count e | tag e | advance e | sum i => exact setDirectory_of_ne _ h hi
    | start prev | place e => rfl
  · cases b with
    | count e | tag e | advance e | start prev | sum i => rfl
    | place e =>
      obtain ⟨-, i, hlo, hhi, htarget⟩ := h
      simp only [BuildState.step]
      rw [htarget, Function.update_of_ne (ha i hlo hhi)]
  · cases b with
    | count e | tag e | advance e | place e => rfl
    | start prev | sum i => exact Function.update_of_ne hq _ _
  · cases b <;> rfl
  · cases b <;> rfl

end

/-! ## The finished table -/

/-- The first `n` of `tuples`. -/
def HashTable.storage (table : HashTable) (n : Nat) : List Entry :=
  (List.range n).map fun i => table.memory (table.tuples + 8 * i)

/-- The table of the given entries. -/
structure HashTable.Represents (table : HashTable) (entries : List Entry) : Prop where
  before : (table.before >>> 16).toNat = table.tuples
  pointer : ∀ i < table.capacity, (table.directory i >>> 16).toNat =
    table.tuples + 8 * (entries.filter fun e => slotOf table.shift (crcHash e.key) ≤ i).length
  tag : ∀ i < table.capacity, (table.directory i).toUInt16 =
    ((entries.filter fun e => slotOf table.shift (crcHash e.key) = i).map fun e =>
      tagOf (crcHash e.key)).foldl (· ||| ·) 0
  perm : (table.storage entries.length).Perm entries
  sorted : (table.storage entries.length).Pairwise fun e e' =>
    slotOf table.shift (crcHash e.key) ≤ slotOf table.shift (crcHash e'.key)

theorem slotTag_eq (k : Nat) (entries : List Entry) (i : Nat) : slotTag k entries i =
    ((bucket (Entry.slot k) entries i).map fun e => tagOf (crcHash e.key)).foldl (· ||| ·) 0 := by
  rw [List.foldl_map]
  rfl

theorem slotTag_perm {k i : Nat} {entries entries' : List Entry}
    (h : (bucket (Entry.slot k) entries i).Perm (bucket (Entry.slot k) entries' i)) :
    slotTag k entries i = slotTag k entries' i := by
  have hcomm : ∀ a b c : UInt16, a ||| b ||| c = a ||| c ||| b := fun a b c => by
    rw [UInt16.or_assoc, UInt16.or_comm b c, ← UInt16.or_assoc]
  exact h.foldl_eq' (fun e _ e' _ tag => hcomm _ _ _) 0

section

variable {k : Nat} {entries : Nat → List Entry} {all : List Entry} {offset : Nat → Nat}

theorem Entry.slot_partition (hk : 6 ≤ k) (hk' : k ≤ 64) (e : Entry) :
    e.slot k / 2 ^ (k - 6) = e.partition := by
  unfold Entry.slot Entry.partition
  exact slotOf_div hk hk' (crcHash e.key)

/-- The entries of a slot are all in its partition. -/
theorem bucket_slot_perm (hk : 6 ≤ k) (hk' : k ≤ 64)
    (hperm : ∀ p, (entries p).Perm (bucket Entry.partition all p)) (i : Nat) :
    (bucket (Entry.slot k) (entries (i / 2 ^ (k - 6))) i).Perm (bucket (Entry.slot k) all i) := by
  have hall : bucket (Entry.slot k) (bucket Entry.partition all (i / 2 ^ (k - 6))) i =
      bucket (Entry.slot k) all i := by
    unfold bucket
    rw [List.filter_filter]
    apply List.filter_congr
    intro e _
    by_cases he : e.slot k = i
    · simp [he, ← e.slot_partition hk hk']
    · simp [he]
  rw [← hall]
  exact (hperm (i / 2 ^ (k - 6))).filter _

/-- The end of a slot: the partitions before, and the slots up to it in its own. -/
theorem end_of_slot (hk : 6 ≤ k) (hk' : k ≤ 64)
    (hperm : ∀ p, (entries p).Perm (bucket Entry.partition all p))
    (hoffset : ∀ p, offset p = below Entry.partition all p) (i : Nat) :
    offset (i / 2 ^ (k - 6)) + below (Entry.slot k) (entries (i / 2 ^ (k - 6))) (i + 1) =
      below (Entry.slot k) all (i + 1) := by
  have hcoarse := below_coarse (Entry.slot k) (l := all)
    (fun e _ => e.slot_partition hk hk') i
  rw [hcoarse, hoffset]
  congr 1
  exact ((hperm (i / 2 ^ (k - 6))).filter _).length_eq

theorem begin_of_slot (hk : 6 ≤ k) (hk' : k ≤ 64)
    (hperm : ∀ p, (entries p).Perm (bucket Entry.partition all p))
    (hoffset : ∀ p, offset p = below Entry.partition all p) (i : Nat) :
    offset (i / 2 ^ (k - 6)) + below (Entry.slot k) (entries (i / 2 ^ (k - 6))) i =
      below (Entry.slot k) all i := by
  have hend := end_of_slot hk hk' hperm hoffset i
  have hlen := (bucket_slot_perm hk hk' hperm i).length_eq
  rw [below_succ, below_succ, hlen] at hend
  omega

theorem HashTable.Built.represents {table : HashTable} (h : table.Built k entries offset)
    (hk : 6 ≤ k) (hk' : k ≤ 64) (hcapacity : table.capacity = 2 ^ k)
    (hperm : ∀ p, (entries p).Perm (bucket Entry.partition all p))
    (hoffset : ∀ p, offset p = below Entry.partition all p)
    (hfit : table.tuples + 8 * all.length < 2 ^ 48) : table.Represents all := by
  have hslot : ∀ e : Entry, slotOf table.shift (crcHash e.key) = e.slot k := fun e => by
    rw [h.shift]
    rfl
  have hslotLt : ∀ e ∈ all, e.slot k < 2 ^ k := fun e _ => slotOf_lt (by omega) hk' _
  have hword : ∀ i < table.capacity, table.directory i =
      pack (table.tuples + 8 * below (Entry.slot k) all (i + 1)) (slotTag k all i) := by
    intro i hi
    rw [h.directory i (hcapacity ▸ hi), end_of_slot hk hk' hperm hoffset,
      slotTag_perm (bucket_slot_perm hk hk' hperm i)]
  have hle : ∀ i, below (Entry.slot k) all i ≤ all.length := below_le_length _ all
  -- the storage has the slots one after another
  have hstorage : table.storage all.length = (List.range (2 ^ k)).flatMap fun i =>
      bucket (Entry.slot k) (entries (i / 2 ^ (k - 6))) i := by
    unfold HashTable.storage
    rw [← below_eq_length (Entry.slot k) hslotLt]
    apply map_range_below
    · exact fun i _ => (bucket_slot_perm hk hk' hperm i).length_eq
    · intro i hi j hj
      rw [h.memory i hi j hj, begin_of_slot hk hk' hperm hoffset]
  refine ⟨?_, fun i hi => ?_, fun i hi => ?_, ?_, ?_⟩
  · have hbase : UInt64.ofNat table.tuples <<< 16 = pack table.tuples 0 := by
      simpa using shiftLeft_or (show table.tuples < 2 ^ 48 by omega) 0
    rw [h.before, hbase, pack_shiftRight (by omega), UInt64.toNat_ofNat',
      Nat.mod_eq_of_lt (by omega)]
  · have := hle (i + 1)
    rw [hword i hi, pack_shiftRight (by omega), UInt64.toNat_ofNat', Nat.mod_eq_of_lt (by omega)]
    simp only [hslot, below, Nat.lt_succ_iff]
  · have := hle (i + 1)
    rw [hword i hi, pack_toUInt16 (by omega), slotTag_eq]
    simp only [hslot]
    rfl
  · rw [hstorage]
    have hbuckets := flatMap_bucket_perm (Entry.slot k) all (2 ^ k)
    rw [List.filter_eq_self.mpr (by simpa using hslotLt)] at hbuckets
    exact (List.Perm.flatMap_left _ fun i _ => bucket_slot_perm hk hk' hperm i).trans hbuckets
  · rw [hstorage]
    simp only [hslot]
    exact pairwise_flatMap_bucket (Entry.slot k) fun i e he =>
      of_decide_eq_true (List.mem_filter.mp he).2

end

/-! ## Any order -/

/-- Whatever entries the threads partitioned, and in whatever order the 64 calls take their steps:
each step keeps to its partition, and the table has the entries when all are done. -/
theorem postProcessBuild_interleaved (env : BuildEnv) (numThreads : Nat) (global : GlobalAllocator)
    (entries : Nat → List Entry) {sz : Nat} {table : HashTable}
    (hnew : HashTable.new env sz = .ok table)
    (hlen : ((List.range numThreads).flatMap entries).length ≤ table.capacity)
    {run : List (Nat × BuildStep)}
    (hrun : (partitionRows env numThreads global entries).Interleaved table.shift numThreads run) :
    ∃ k, table.capacity = 2 ^ k ∧ table.shift = UInt64.ofNat (64 - k) ∧
      (∀ done p b rest, run = done ++ (p, b) :: rest →
        Confined k ((partitionRows env numThreads global entries).partitionOffset numThreads) p b
          (done.foldl BuildState.callStep ⟨table, fun _ => 0⟩)) ∧
      (run.foldl BuildState.callStep ⟨table, fun _ => 0⟩).table.Represents
        ((List.range numThreads).flatMap entries) := by
  obtain ⟨k, hk, hk', htable⟩ := HashTable.of_new hnew
  let s := partitionRows env numThreads global entries
  have hoffset : ∀ p, s.partitionOffset numThreads p =
      below Entry.partition ((List.range numThreads).flatMap entries) p :=
    partitionRows_offset env numThreads global entries
  have hpart : Partitioned (s.entries numThreads) (s.partitionOffset numThreads) :=
    partitionRows_partitioned env numThreads global entries
  have hcapacity : table.capacity = 2 ^ k := by rw [htable]
  have hshift : table.shift = UInt64.ofNat (64 - k) := by rw [htable]
  have hbefore : table.before = UInt64.ofNat table.tuples <<< 16 := by rw [htable]
  have hzero : ∀ i, table.directory i = 0 := fun i => by rw [htable]
  have htuples : table.tuples = env.tuples := by rw [htable]
  have hfit : table.tuples + 8 * ((List.range numThreads).flatMap entries).length < 2 ^ 48 := by
    have hpow : 2 ^ k ≤ 2 ^ 30 := Nat.pow_le_pow_right Nat.two_pos hk'
    have := env.tuples_lt
    omega
  have hfit' : table.tuples + 8 * s.partitionOffset numThreads 64 < 2 ^ 48 := by
    have hle := below_le_length Entry.partition ((List.range numThreads).flatMap entries) 64
    rw [hoffset]
    omega
  refine ⟨k, hcapacity, hshift, fun done p b rest hsplit => ?_, ?_⟩
  · have hsafe := (build_local k table.tuples hpart.mono).safeRun run
      (hrun.safe (by omega) (by omega) hpart hshift hzero hfit')
    rw [hsplit, safeRun_append] at hsafe
    have hstep := hsafe.2.1
    rw [← (foldl_before done ⟨table, fun _ => 0⟩).2.1] at hstep
    exact hstep.confined
  · have hbuilt := hrun.built (by omega) (by omega) hpart hshift hbefore hzero hfit'
    obtain ⟨-, htuples', hcapacity', -⟩ := foldl_before run ⟨table, fun _ => 0⟩
    refine hbuilt.represents (by omega) (by omega) (hcapacity'.trans hcapacity)
      (partitionRows_entries env numThreads global entries) hoffset ?_
    rw [htuples']
    exact hfit

/-- Two threads, each with an entry of partition 22 and one of partition 21. They take turns in the
second phase, in which different threads make the calls for these, so that the two overlap. -/
theorem postProcessBuild_interleaved_partitions :
    let env : BuildEnv :=
      ⟨4096, by decide, fun _ => ⟨0, 0⟩, [], (List.replicate 200 [1, 0]).flatten⟩
    partitionOf (crcHash 7) = 22 ∧ partitionOf (crcHash 9) = 21 ∧ ∃ table run,
      HashTable.new env 4 = .ok table ∧
        (partitionRows env 2 {} fun t =>
          [⟨7, UInt32.ofNat t⟩, ⟨9, UInt32.ofNat (2 + t)⟩]).Interleaved table.shift 2 run ∧
        (run.foldl BuildState.callStep ⟨table, fun _ => 0⟩).table.Represents
          [⟨7, 0⟩, ⟨9, 2⟩, ⟨7, 1⟩, ⟨9, 3⟩] := by
  intro env
  refine ⟨by decide +kernel, by decide +kernel, ?_⟩
  obtain ⟨k, table, hnew, hk, -, -, hcapacity, -⟩ :=
    HashTable.new_ok env (show 4 < 2 ^ 30 by decide)
  have hlen : 4 ≤ table.capacity := by
    have : 2 ^ 9 ≤ 2 ^ k := Nat.pow_le_pow_right Nat.two_pos hk
    omega
  have hrun := buildSteps_interleaved env Nat.two_pos
    (partitionRows env 2 {} fun t => [⟨7, UInt32.ofNat t⟩, ⟨9, UInt32.ofNat (2 + t)⟩])
    table.shift
  obtain ⟨-, -, -, -, hrepresents⟩ := postProcessBuild_interleaved env 2 {}
    (fun t => [⟨7, UInt32.ofNat t⟩, ⟨9, UInt32.ofNat (2 + t)⟩]) hnew hlen hrun
  exact ⟨table, _, hnew, hrun, hrepresents⟩

end HashJoin
