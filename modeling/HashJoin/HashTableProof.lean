import HashJoin.PostProcessProof

/-!
# What a lookup finds

After `build_parallel` the range that `lookup` returns for a key has the entries of all rows with
the key, once each, among those of other keys in its slot.
-/

namespace HashJoin

open Interleave Buckets TaggedWord Chunks

/-! ## The entries of a column -/

/-- The entry of a row, unless it is NULL. -/
def rowEntry (row : Nat × Value) : Option Entry :=
  row.2.key.map fun key => ⟨key, UInt32.ofNat row.1⟩

/-- The entries of the rows of a column. -/
def columnEntries (values : List Value) : List Entry :=
  ((List.range values.length).zip values).filterMap rowEntry

/-- The entries of the slice of a thread. -/
def threadEntries (values : List Value) (numThreads t : Nat) : List Entry :=
  (slice (rowsPerThread values.length numThreads) ((List.range values.length).zip values)
    t).filterMap rowEntry

theorem sliceEntries_ok {col : ColumnT} (h : col.Valid) (numThreads t : Nat) :
    sliceEntries col (sliceRows col.numRows numThreads t) =
      .ok (threadEntries col.values numThreads t) := by
  have hzip : ∀ k, (slice k (List.range col.values.length) t).zip (slice k col.values t) =
      slice k ((List.range col.values.length).zip col.values) t := fun k => by
    simp only [slice, List.zip, List.take_zipWith, List.drop_zipWith]
  unfold sliceEntries
  rw [sliceRows_eq, h.reads.slice, ok_bind, h.numRows, hzip]
  rfl

/-- The slices make up the column. -/
theorem flatMap_threadEntries (values : List Value) {numThreads : Nat} (h : 0 < numThreads) :
    (List.range numThreads).flatMap (threadEntries values numThreads) = columnEntries values := by
  have hlen : ((List.range values.length).zip values).length ≤
      numThreads * rowsPerThread values.length numThreads := by
    rw [List.length_zip, List.length_range, Nat.min_self]
    exact le_mul_rowsPerThread h
  have hflat := flatten_slices (rowsPerThread values.length numThreads) numThreads
    ((List.range values.length).zip values)
  rw [List.take_of_length_le hlen] at hflat
  unfold columnEntries
  rw [← hflat, List.filterMap_flatten, List.map_map, List.flatMap]
  rfl

theorem length_columnEntries (values : List Value) :
    (columnEntries values).length ≤ values.length := by
  apply (List.length_filterMap_le _ _).trans
  simp

theorem columnEntries_concat (values : List Value) (v : Value) :
    columnEntries (values ++ [v]) =
      columnEntries values ++ (rowEntry (values.length, v)).toList := by
  unfold columnEntries
  rw [List.length_append, List.length_singleton, List.range_succ,
    List.zip_append (by simp), List.filterMap_append]
  cases h : rowEntry (values.length, v) with
  | none => simp [h]
  | some e => simp [h]

/-- The rows of a column that hold a key. -/
def rowsWith (values : List Value) (key : Int32) : List Nat :=
  (List.range values.length).filter fun i => (values[i]?.bind Value.key) = some key

theorem rowsWith_concat (values : List Value) (v : Value) (key : Int32) :
    rowsWith (values ++ [v]) key =
      rowsWith values key ++ if v.key = some key then [values.length] else [] := by
  unfold rowsWith
  rw [List.length_append, List.length_singleton, List.range_succ, List.filter_append]
  congr 1
  · apply List.filter_congr
    intro i hi
    rw [List.getElem?_append_left (List.mem_range.mp hi)]
  · rw [List.filter_singleton]
    by_cases h : v.key = some key <;> simp [h]

/-- The entries with a key are those of the rows that have it. -/
theorem filter_columnEntries (values : List Value) (key : Int32) :
    (columnEntries values).filter (·.key = key) =
      (rowsWith values key).map fun i => ⟨key, UInt32.ofNat i⟩ := by
  induction values using List.reverseRecOn with
  | nil => rfl
  | append_singleton values v ih =>
    rw [columnEntries_concat, rowsWith_concat, List.filter_append, List.map_append, ih]
    congr 1
    cases hv : v.key with
    | none => simp [rowEntry, hv]
    | some key' =>
      by_cases hkey : key' = key
      · simp [rowEntry, hv, hkey]
      · simp [rowEntry, hv, hkey]

/-! ## The constructor -/

theorem findShift_ok {sz : Nat} (hsz : sz < 2 ^ 30) {shiftVal : Nat} (h : shiftVal ≤ 30) :
    ∃ k, shiftVal ≤ k ∧ k ≤ 30 ∧ sz < 2 ^ k ∧ findShift sz shiftVal = .ok k := by
  unfold findShift
  rw [if_neg (by omega)]
  by_cases hle : 2 ^ shiftVal ≤ sz
  · rw [if_pos hle]
    have hlt : shiftVal < 30 := by
      by_contra hge
      have : shiftVal = 30 := by omega
      rw [this] at hle
      omega
    have hnext : shiftVal + 1 ≤ 30 := by omega
    obtain ⟨k, hk, hk', hszk, hfind⟩ := findShift_ok hsz hnext
    exact ⟨k, by omega, hk', hszk, hfind⟩
  · rw [if_neg hle]
    exact ⟨shiftVal, le_rfl, h, by omega, rfl⟩
termination_by 31 - shiftVal

/-- What the loop has found when it ends. -/
theorem findShift_spec {sz shiftVal k : Nat} (h : findShift sz shiftVal = .ok k) :
    shiftVal ≤ k ∧ k ≤ 30 ∧ sz < 2 ^ k := by
  unfold findShift at h
  split at h
  · cases h
  · next hlt =>
    split at h
    · obtain ⟨hle, hk, hsz⟩ := findShift_spec h
      exact ⟨by omega, hk, hsz⟩
    · next hsz =>
      cases h
      exact ⟨le_rfl, by omega, Nat.lt_of_not_le hsz⟩
termination_by 31 - shiftVal

theorem HashTable.new_eq (env : BuildEnv) {sz k : Nat} (h : findShift sz 9 = .ok k) :
    HashTable.new env sz = .ok
      { before := UInt64.ofNat env.tuples <<< 16, directory := fun _ => 0, tuples := env.tuples,
        memory := fun _ => ⟨0, 0⟩, shift := UInt64.ofNat (64 - k), capacity := 2 ^ k } := by
  unfold HashTable.new
  rw [h]
  rfl

/-! ## The directory -/

theorem mem_partitionsOf {numThreads t p : Nat} (ht : t < numThreads)
    (hp : p ∈ partitionsOf numThreads t) : p < 64 ∧ p % numThreads = t := by
  obtain ⟨i, hi, rfl⟩ := List.mem_range'.mp hp
  have hmul : (i + 1) * numThreads ≤ 64 - t + numThreads - 1 :=
    (Nat.le_div_iff_mul_le (by omega)).mp hi
  rw [Nat.succ_mul, Nat.mul_comm] at hmul
  refine ⟨by omega, ?_⟩
  rw [Nat.add_mul_mod_self_left, Nat.mod_eq_of_lt ht]

theorem nodup_partitionsOf {numThreads : Nat} (h : 0 < numThreads) (t : Nat) :
    (partitionsOf numThreads t).Nodup :=
  List.nodup_range' numThreads h

theorem partitionsOf_mem {numThreads p : Nat} (h : 0 < numThreads) (hp : p < 64) :
    p ∈ partitionsOf numThreads (p % numThreads) := by
  have hdm := Nat.mod_add_div p numThreads
  refine List.mem_range'.mpr ⟨p / numThreads, ?_, hdm.symm⟩
  apply (Nat.le_div_iff_mul_le h).mpr
  rw [Nat.succ_mul, Nat.mul_comm]
  omega

/-- The steps for one partition in those of a thread. -/
theorem filter_flatMap_of_nodup {α β : Type} [DecidableEq α] {l : List α} (hl : l.Nodup)
    (f : α → List β) (p : α) :
    (l.flatMap fun a => (f a).map (Prod.mk a)).filter (fun x => x.1 = p) =
      if p ∈ l then (f p).map (Prod.mk p) else [] := by
  induction l with
  | nil => rfl
  | cons a l ih =>
    obtain ⟨ha, hl⟩ := List.nodup_cons.mp hl
    rw [List.flatMap_cons, List.filter_append, ih hl, List.filter_map]
    by_cases hap : a = p
    · subst hap
      simp [Function.comp_def, ha]
    · have hpa : ¬ p = a := fun h => hap h.symm
      simp [Function.comp_def, hap, hpa]

/-- The entries that the first phase left in each partition. -/
structure Partitioned (entries : Nat → List Entry) (offset : Nat → Nat) : Prop where
  partition : ∀ p, ∀ e ∈ entries p, e.partition = p
  zero : offset 0 = 0
  succ : ∀ p, offset (p + 1) = offset p + (entries p).length

theorem Partitioned.mono {entries : Nat → List Entry} {offset : Nat → Nat}
    (h : Partitioned entries offset) : Monotone offset :=
  monotone_nat_of_le_succ fun p => by
    rw [h.succ]
    omega

/-- A finished table: the words and the storage of each slot. -/
structure HashTable.Built (k : Nat) (entries : Nat → List Entry) (offset : Nat → Nat)
    (table : HashTable) : Prop where
  shift : table.shift = UInt64.ofNat (64 - k)
  before : table.before = UInt64.ofNat table.tuples <<< 16
  directory : ∀ i < 2 ^ k, table.directory i =
    pack (table.tuples + 8 * (offset (i / 2 ^ (k - 6)) +
      below (Entry.slot k) (entries (i / 2 ^ (k - 6))) (i + 1)))
      (slotTag k (entries (i / 2 ^ (k - 6))) i)
  memory : ∀ i < 2 ^ k, ∀ j, j < (bucket (Entry.slot k) (entries (i / 2 ^ (k - 6))) i).length →
    (bucket (Entry.slot k) (entries (i / 2 ^ (k - 6))) i)[j]? =
      some (table.memory (table.tuples + 8 * (offset (i / 2 ^ (k - 6)) +
        below (Entry.slot k) (entries (i / 2 ^ (k - 6))) i + j)))

/-- An order of the steps of the 64 calls that keeps the order in each call. -/
def PartitionState.Interleaved (s : PartitionState) (shift : UInt64) (numThreads : Nat)
    (run : List (Nat × BuildStep)) : Prop :=
  ∀ p, run.filter (fun x => x.1 = p) =
    if p < 64 then (postProcessBuild shift p (s.partitionOffset numThreads p)
      (s.entries numThreads p)).map (Prod.mk p)
    else []

/-- The threads run the calls in such an order, since all steps of a call are taken by one. -/
theorem buildSteps_interleaved (env : BuildEnv) {numThreads : Nat} (hT : 0 < numThreads)
    (s : PartitionState) (shift : UInt64) : s.Interleaved shift numThreads
      ((complete numThreads (s.buildSteps shift numThreads) env.postProcessing).map Prod.snd) := by
  intro p
  have hsnd : ((complete numThreads (s.buildSteps shift numThreads) env.postProcessing).map
      Prod.snd).filter (fun x => x.1 = p) = ((complete numThreads (s.buildSteps shift numThreads)
        env.postProcessing).filter fun x => x.2.1 = p).map Prod.snd := by
    rw [List.filter_map]
    rfl
  rw [hsnd]
  split
  · next hp =>
    rw [filter_agent env.postProcessing Prod.fst (Nat.mod_lt p hT)]
    · unfold PartitionState.buildSteps
      rw [filter_flatMap_of_nodup (nodup_partitionsOf hT _), if_pos (partitionsOf_mem hT hp),
        List.map_map]
      exact List.map_id _
    · intro u hu a ha hap
      obtain ⟨q, hq, ha⟩ := List.mem_flatMap.mp ha
      obtain ⟨b, -, rfl⟩ := List.mem_map.mp ha
      obtain rfl : q = p := hap
      exact (mem_partitionsOf hu hq).2.symm
  · next hp =>
    rw [List.filter_eq_nil_iff.mpr, List.map_nil]
    intro x hx hxp
    obtain ⟨hlt, hx⟩ := mem_complete hx
    obtain ⟨q, hq, hx⟩ := List.mem_flatMap.mp hx
    obtain ⟨b, -, hb⟩ := List.mem_map.mp hx
    have hqp : q = p := by
      rw [← of_decide_eq_true hxp, ← hb]
    exact hp (hqp ▸ (mem_partitionsOf hlt hq).1)

theorem buildDirectory_eq (env : BuildEnv) (numThreads : Nat) (s : PartitionState)
    (table : HashTable) : buildDirectory env numThreads s table =
      (((complete numThreads (s.buildSteps table.shift numThreads) env.postProcessing).map
        Prod.snd).foldl BuildState.callStep ⟨table, fun _ => 0⟩).table := by
  rw [List.foldl_map]
  rfl

/-- The partition of a slot. -/
theorem slot_div_lt {k i : Nat} (hk : 6 ≤ k) (hi : i < 2 ^ k) : i / 2 ^ (k - 6) < 64 := by
  rwa [Nat.div_lt_iff_lt_mul (Nat.two_pow_pos _), ← two_pow_eq hk]

theorem foldl_before (run : List (Nat × BuildStep)) (s : BuildState) :
    (run.foldl BuildState.callStep s).table.before = s.table.before ∧
      (run.foldl BuildState.callStep s).table.tuples = s.table.tuples ∧
      (run.foldl BuildState.callStep s).table.capacity = s.table.capacity ∧
      (run.foldl BuildState.callStep s).table.shift = s.table.shift := by
  induction run generalizing s with
  | nil => exact ⟨rfl, rfl, rfl, rfl⟩
  | cons x run ih =>
    obtain ⟨p, b⟩ := x
    obtain ⟨hbefore, htuples, hcapacity, hshift⟩ := ih (s.callStep (p, b))
    rw [List.foldl_cons, hbefore, htuples, hcapacity, hshift]
    cases b <;> exact ⟨rfl, rfl, rfl, rfl⟩

section Run

variable {numThreads k : Nat} {s : PartitionState} {table : HashTable}

/-- Each call on its own, from the new table. -/
theorem call_run (hk : 6 ≤ k) (hk' : k ≤ 64)
    (hpart : Partitioned (s.entries numThreads) (s.partitionOffset numThreads))
    (hshift : table.shift = UInt64.ofNat (64 - k)) (hzero : ∀ i, table.directory i = 0)
    (hfit : table.tuples + 8 * s.partitionOffset numThreads 64 < 2 ^ 48) {p : Nat} (hp : p < 64) :
    SafeRun (fun s b => BuildState.step s p b)
      (Safe k table.tuples (s.partitionOffset numThreads) p) ⟨table, fun _ => 0⟩
      (postProcessBuild table.shift p (s.partitionOffset numThreads p) (s.entries numThreads p)) ∧
    Placed k table.tuples p (s.partitionOffset numThreads p) (s.entries numThreads p)
      (s.entries numThreads p) ((postProcessBuild table.shift p (s.partitionOffset numThreads p)
        (s.entries numThreads p)).foldl (fun s b => BuildState.step s p b)
          ⟨table, fun _ => 0⟩) := by
  have hcounted : Counted k table.tuples [] ⟨table, fun _ => 0⟩ :=
    ⟨⟨hshift, rfl⟩, fun i => by rw [hzero, ← pack_zero]; rfl⟩
  have hend : s.partitionOffset numThreads p + (s.entries numThreads p).length ≤
      s.partitionOffset numThreads 64 := by
    rw [← hpart.succ]
    exact hpart.mono hp
  rw [hshift]
  exact postProcessBuild_run hk hk' rfl (hpart.succ p) (by omega) (hpart.partition p) hcounted

/-- In any order of the steps those of each call are safe. -/
theorem PartitionState.Interleaved.safe (hk : 6 ≤ k) (hk' : k ≤ 64)
    (hpart : Partitioned (s.entries numThreads) (s.partitionOffset numThreads))
    (hshift : table.shift = UInt64.ofNat (64 - k)) (hzero : ∀ i, table.directory i = 0)
    (hfit : table.tuples + 8 * s.partitionOffset numThreads 64 < 2 ^ 48)
    {run : List (Nat × BuildStep)} (hrun : s.Interleaved table.shift numThreads run) (p : Nat) :
    SafeRun BuildState.callStep (fun x b =>
      Safe k table.tuples (s.partitionOffset numThreads) x.1 x.2 b) ⟨table, fun _ => 0⟩
      (run.filter fun x => x.1 = p) := by
  rw [hrun p]
  split
  · next hp =>
    rw [safeRun_map]
    exact (call_run hk hk' hpart hshift hzero hfit hp).1
  · trivial

/-- The second phase builds the table, in whatever order the calls take their steps. -/
theorem PartitionState.Interleaved.built (hk : 6 ≤ k) (hk' : k ≤ 64)
    (hpart : Partitioned (s.entries numThreads) (s.partitionOffset numThreads))
    (hshift : table.shift = UInt64.ofNat (64 - k))
    (hbefore : table.before = UInt64.ofNat table.tuples <<< 16)
    (hzero : ∀ i, table.directory i = 0)
    (hfit : table.tuples + 8 * s.partitionOffset numThreads 64 < 2 ^ 48)
    {run : List (Nat × BuildStep)} (hrun : s.Interleaved table.shift numThreads run) :
    (run.foldl BuildState.callStep ⟨table, fun _ => 0⟩).table.Built k (s.entries numThreads)
      (s.partitionOffset numThreads) := by
  have hcall : ∀ p < 64, Placed k table.tuples p (s.partitionOffset numThreads p)
      (s.entries numThreads p) (s.entries numThreads p)
      ((postProcessBuild table.shift p (s.partitionOffset numThreads p)
        (s.entries numThreads p)).foldl (fun s b => BuildState.step s p b)
          ⟨table, fun _ => 0⟩) :=
    fun p hp => (call_run hk hk' hpart hshift hzero hfit hp).2
  have hsame : ∀ p < 64, Same k table.tuples (s.partitionOffset numThreads) p
      (run.foldl BuildState.callStep ⟨table, fun _ => 0⟩)
      ((postProcessBuild table.shift p (s.partitionOffset numThreads p)
        (s.entries numThreads p)).foldl
          (fun s b => BuildState.step s p b) ⟨table, fun _ => 0⟩) := by
    intro p hp
    have hsame := (build_local k table.tuples hpart.mono).foldl run
      (hrun.safe hk hk' hpart hshift hzero hfit) p
    rwa [hrun p, if_pos hp, List.foldl_map] at hsame
  have hpartition : ∀ i < 2 ^ k, i / 2 ^ (k - 6) < 64 := fun i hi => slot_div_lt hk hi
  obtain ⟨hbefore', htuples, -, -⟩ := foldl_before run ⟨table, fun _ => 0⟩
  change (run.foldl BuildState.callStep ⟨table, fun _ => 0⟩).table.tuples = table.tuples at htuples
  refine ⟨(hsame 0 (by decide)).shift.trans (hcall 0 (by decide)).static.shift, ?_,
    fun i hi => ?_, fun i hi j hj => ?_⟩
  · rw [htuples, ← hbefore]
    exact hbefore'
  · rw [htuples]
    have hword := ((hsame _ (hpartition i hi)).directory i rfl).trans
      ((hcall _ (hpartition i hi)).directory i rfl)
    rw [Nat.add_assoc, ← below_succ] at hword
    exact hword
  · rw [htuples]
    have hle := below_le_length (Entry.slot k) (s.entries numThreads (i / 2 ^ (k - 6))) (i + 1)
    rw [below_succ] at hle
    have hmem := (hsame _ (hpartition i hi)).memory
      (s.partitionOffset numThreads (i / 2 ^ (k - 6)) +
      below (Entry.slot k) (s.entries numThreads (i / 2 ^ (k - 6))) i + j) (by omega)
      (by rw [hpart.succ]; omega)
    rw [(hcall _ (hpartition i hi)).memory i j hj, ← hmem]

theorem buildDirectory_ok (env : BuildEnv) (hT : 0 < numThreads) (hk : 6 ≤ k) (hk' : k ≤ 64)
    (hpart : Partitioned (s.entries numThreads) (s.partitionOffset numThreads))
    (hshift : table.shift = UInt64.ofNat (64 - k))
    (hbefore : table.before = UInt64.ofNat table.tuples <<< 16)
    (hzero : ∀ i, table.directory i = 0)
    (hfit : table.tuples + 8 * s.partitionOffset numThreads 64 < 2 ^ 48) :
    (buildDirectory env numThreads s table).Built k (s.entries numThreads)
      (s.partitionOffset numThreads) := by
  rw [buildDirectory_eq]
  exact (buildSteps_interleaved env hT s table.shift).built hk hk' hpart hshift hbefore hzero hfit

end Run

/-! ## Lookup -/

/-- The tags of a slot cover those of its entries. -/
theorem slotTag_covers {k : Nat} {entries : List Entry} {e : Entry} (he : e ∈ entries) :
    tagOf (crcHash e.key) &&& ~~~slotTag k entries (e.slot k) = 0 := by
  have hcover : ∀ tag a b : UInt16, tag &&& ~~~a = 0 → tag &&& ~~~(a ||| b) = 0 := by
    intro tag a b h
    have hbits := congrArg UInt16.toBitVec h
    apply UInt16.toBitVec_inj.mp
    ext i hi
    have hi' := congrArg (fun v => v[i]) hbits
    simp at hi' ⊢
    intro h1 h2
    exact absurd (hi' h1) (by simp [h2])
  induction entries using List.reverseRecOn with
  | nil => simp at he
  | append_singleton done d ih =>
    rw [slotTag_concat]
    rcases List.mem_append.mp he with he | he
    · split
      · exact hcover _ _ _ (ih he)
      · exact ih he
    · rw [List.mem_singleton.mp he, if_pos rfl, UInt16.or_comm]
      exact hcover _ _ _ UInt16.and_not_self

section

variable {k : Nat} {entries : Nat → List Entry} {offset : Nat → Nat} {table : HashTable}

/-- The places of a slot are inside the storage. -/
theorem Partitioned.place_le (h : Partitioned entries offset) {p : Nat} (hp : p < 64) (i : Nat) :
    offset p + below (Entry.slot k) (entries p) i ≤ offset 64 := by
  have hle := below_le_length (Entry.slot k) (entries p) i
  have hmono : offset (p + 1) ≤ offset 64 := h.mono hp
  rw [h.succ] at hmono
  omega

/-- The word before a slot points to where its entries begin. -/
theorem HashTable.Built.previous (h : table.Built k entries offset) (hk : 6 ≤ k) (hk' : k ≤ 64)
    (hpart : Partitioned entries offset) (hfit : table.tuples + 8 * offset 64 < 2 ^ 48) {s : Nat}
    (hs : s < 2 ^ k) :
    (if s = 0 then table.before else table.directory (s - 1)) >>> 16 =
      UInt64.ofNat (table.tuples + 8 * (offset (s / 2 ^ (k - 6)) +
        below (Entry.slot k) (entries (s / 2 ^ (k - 6))) s)) := by
  have hpos : 0 < 2 ^ (k - 6) := Nat.two_pow_pos _
  have hlt : ∀ i < 2 ^ k, i / 2 ^ (k - 6) < 64 := fun i hi => by
    rw [Nat.div_lt_iff_lt_mul hpos, ← two_pow_eq hk]
    exact hi
  have hfirst : ∀ p, below (Entry.slot k) (entries p) (p * 2 ^ (k - 6)) = 0 := fun p =>
    below_eq_zero _ fun e he => (Entry.slot_range hk hk' (hpart.partition p e he)).1
  by_cases h0 : s = 0
  · have hbase : UInt64.ofNat table.tuples <<< 16 = pack table.tuples 0 := by
      have htuples : table.tuples < 2 ^ 48 := by omega
      simpa using shiftLeft_or htuples 0
    have hbelow := hfirst 0
    rw [Nat.zero_mul] at hbelow
    rw [if_pos h0, h.before, hbase, pack_shiftRight (by omega), h0, Nat.zero_div,
      hpart.zero, hbelow,
      Nat.add_zero]
  · rw [if_neg h0, h.directory (s - 1) (by omega), pack_shiftRight, Nat.sub_add_cancel (by omega)]
    · -- The slot before is in the same partition, or the last one of the partition before.
      by_cases hsame : (s - 1) / 2 ^ (k - 6) = s / 2 ^ (k - 6)
      · rw [hsame]
      · obtain ⟨i, rfl⟩ := Nat.exists_eq_succ_of_ne_zero h0
        rw [Nat.succ_sub_one] at hsame ⊢
        have hdvd : 2 ^ (k - 6) ∣ i + 1 := by
          by_contra hdvd
          rw [Nat.succ_eq_add_one, Nat.succ_div, if_neg hdvd] at hsame
          exact hsame rfl
        have hnext : (i + 1) / 2 ^ (k - 6) = i / 2 ^ (k - 6) + 1 := by
          rw [Nat.succ_div, if_pos hdvd]
        have hmul : (i / 2 ^ (k - 6) + 1) * 2 ^ (k - 6) = i + 1 := by
          rw [← hnext]
          exact Nat.div_mul_cancel hdvd
        have hlast : below (Entry.slot k) (entries (i / 2 ^ (k - 6))) (i + 1) =
            (entries (i / 2 ^ (k - 6))).length :=
          below_eq_length _ fun e he => by
            rw [← hmul]
            exact (Entry.slot_range hk hk' (hpart.partition _ e he)).2
        have hzero := hfirst (i / 2 ^ (k - 6) + 1)
        rw [hmul] at hzero
        rw [Nat.succ_eq_add_one, hnext, hlast, hzero, hpart.succ, Nat.add_zero]
    · have := hpart.place_le (k := k) (hlt (s - 1) (by omega)) (s - 1 + 1)
      omega

/-- The range of a key has the entries of the slot of the key, or none if the tags tell that the key
is not there. -/
theorem HashTable.Built.entriesIn_lookup (h : table.Built k entries offset) (hk : 6 ≤ k)
    (hk' : k ≤ 64) (hpart : Partitioned entries offset)
    (hfit : table.tuples + 8 * offset 64 < 2 ^ 48) (key : Int32) :
    (table.entriesIn (table.lookup key)).filter (·.key = key) =
      (entries (partitionOf (crcHash key))).filter (·.key = key) := by
  let slot := slotOf (UInt64.ofNat (64 - k)) (crcHash key)
  have hslot : slot < 2 ^ k := slotOf_lt (by omega) hk' (crcHash key)
  have hdiv : slot / 2 ^ (k - 6) = partitionOf (crcHash key) := slotOf_div hk hk' (crcHash key)
  have hp : partitionOf (crcHash key) < 64 := partitionOf_lt _
  have hcur : table.directory slot = _ := h.directory slot hslot
  have hprev := h.previous hk hk' hpart hfit hslot
  have hmemory := h.memory slot hslot
  rw [hdiv] at hcur hprev hmemory
  generalize partitionOf (crcHash key) = p at *
  have hend := hpart.place_le (k := k) hp (slot + 1)
  have htag : (table.directory slot).toUInt16 = slotTag k (entries p) slot := by
    rw [hcur, pack_toUInt16 (by omega)]
  show (table.entriesIn (table.lookup key)).filter _ = _
  unfold HashTable.lookup
  rw [h.shift]
  show (table.entriesIn (if (!couldContain (table.directory slot).toUInt16 (crcHash key)) = true
    then _ else _)).filter _ = _
  split
  · next hnot =>
    -- The tags of an entry with the key would be there.
    symm
    apply List.filter_eq_nil_iff.mpr
    intro e he hkey
    have hcovers := slotTag_covers (k := k) he
    rw [show e.slot k = slot by rw [Entry.slot, of_decide_eq_true hkey], of_decide_eq_true hkey,
      ← htag] at hcovers
    simp [couldContain, hcovers] at hnot
  · rw [below_succ] at hcur hend
    have hbegin : (UInt64.ofNat (table.tuples + 8 * (offset p +
        below (Entry.slot k) (entries p) slot))).toNat =
          table.tuples + 8 * (offset p + below (Entry.slot k) (entries p) slot) := by
      rw [UInt64.toNat_ofNat', Nat.mod_eq_of_lt (by omega)]
    have hrange : table.entriesIn
        ((if slot = 0 then table.before else table.directory (slot - 1)) >>> 16,
          table.directory slot >>> 16) = bucket (Entry.slot k) (entries p) slot := by
      rw [hprev, hcur, pack_shiftRight (by omega)]
      generalize bucket (Entry.slot k) (entries p) slot = b at hend hmemory ⊢
      have hfinish : (UInt64.ofNat (table.tuples + 8 * (offset p +
          (below (Entry.slot k) (entries p) slot + b.length)))).toNat =
            table.tuples + 8 * (offset p + below (Entry.slot k) (entries p) slot) +
              8 * b.length := by
        rw [UInt64.toNat_ofNat', Nat.mod_eq_of_lt (by omega)]
        omega
      have hlen : ∀ a, (a + 8 * b.length - a + 7) / 8 = b.length := fun a => by omega
      unfold HashTable.entriesIn
      rw [hbegin, hfinish, hlen]
      refine List.ext_getElem? fun j => ?_
      by_cases hj : j < b.length
      · rw [List.getElem?_map, List.getElem?_range hj, hmemory j hj, Option.map_some]
        congr 2
        omega
      · rw [List.getElem?_eq_none (by simpa using hj), List.getElem?_eq_none (by omega)]
    show (table.entriesIn (_, _)).filter _ = _
    rw [hrange, bucket, List.filter_filter]
    apply List.filter_congr
    intro e _
    by_cases hkey : e.key = key
    · simp [hkey, Entry.slot, slot]
    · simp [hkey]

end

/-! ## The build -/

section

variable (env : BuildEnv) (numThreads : Nat) (global : GlobalAllocator)
  (entries : Nat → List Entry)

/-- The chunks have the entries of all threads. -/
theorem partitionRows_entries (p : Nat) :
    ((partitionRows env numThreads global entries).entries numThreads p).Perm
      (((List.range numThreads).flatMap entries).filter (·.partition = p)) := by
  rw [List.filter_flatMap]
  exact List.Perm.flatMap_left _ fun t ht =>
    (partitionRows_ok env numThreads global entries (List.mem_range.mp ht) p).1

theorem partitionRows_countTotal (p : Nat) :
    (partitionRows env numThreads global entries).countTotal numThreads p =
      (((List.range numThreads).flatMap entries).filter (·.partition = p)).length := by
  rw [List.filter_flatMap, List.length_flatMap]
  refine congrArg List.sum (List.map_congr_left fun t ht => ?_)
  exact (partitionRows_ok env numThreads global entries (List.mem_range.mp ht) p).2

/-- The offset of a partition is the number of entries in the partitions before it. -/
theorem partitionRows_offset (p : Nat) :
    (partitionRows env numThreads global entries).partitionOffset numThreads p =
      below Entry.partition ((List.range numThreads).flatMap entries) p := by
  induction p with
  | zero => exact (below_eq_zero _ fun _ _ => Nat.zero_le _).symm
  | succ p ih =>
    rw [below_succ, ← ih, bucket, ← partitionRows_countTotal env numThreads global entries]
    simp [PartitionState.partitionOffset, List.range_succ]

theorem partitionRows_partitioned :
    Partitioned ((partitionRows env numThreads global entries).entries numThreads)
      ((partitionRows env numThreads global entries).partitionOffset numThreads) where
  partition p e he := by
    have := (partitionRows_entries env numThreads global entries p).mem_iff.mp he
    exact of_decide_eq_true (List.mem_filter.mp this).2
  zero := rfl
  succ p := by
    rw [partitionRows_offset, partitionRows_offset, below_succ,
      (partitionRows_entries env numThreads global entries p).length_eq]
    rfl

end

section

variable (env : BuildEnv) {numThreads : Nat} (global : GlobalAllocator) (values : List Value)

/-- The first phase, on the slices of a column. -/
def partitionColumn (env : BuildEnv) (numThreads : Nat) (global : GlobalAllocator)
    (values : List Value) : PartitionState :=
  partitionRows env numThreads global fun t =>
    ((List.range numThreads).map (threadEntries values numThreads)).getD t []

theorem getD_threadEntries {t : Nat} (ht : t < numThreads) :
    ((List.range numThreads).map (threadEntries values numThreads)).getD t [] =
      threadEntries values numThreads t := by
  rw [List.getD_eq_getElem?_getD, List.getElem?_map, List.getElem?_range ht]
  rfl

theorem partitionColumn_ok {t : Nat} (ht : t < numThreads) (p : Nat) :
    ((ThreadLocalState.entriesInPartition
      ((partitionColumn env numThreads global values).threads t) p).map
        (partitionColumn env numThreads global values).memory).Perm
          ((threadEntries values numThreads t).filter (·.partition = p)) ∧
    ((partitionColumn env numThreads global values).threads t).counts p =
      ((threadEntries values numThreads t).filter (·.partition = p)).length := by
  have h := partitionRows_ok env numThreads global (fun t =>
    ((List.range numThreads).map (threadEntries values numThreads)).getD t []) ht p
  rw [getD_threadEntries values ht] at h
  exact h

/-- The entries of all threads are those of the column. -/
theorem flatMap_getD_threadEntries (hT : 0 < numThreads) :
    ((List.range numThreads).flatMap fun t =>
      ((List.range numThreads).map (threadEntries values numThreads)).getD t []) =
        columnEntries values := by
  rw [← flatMap_threadEntries values hT]
  exact List.flatMap_congr fun t ht => getD_threadEntries values (List.mem_range.mp ht)

theorem entries_perm (hT : 0 < numThreads) (p : Nat) :
    ((partitionColumn env numThreads global values).entries numThreads p).Perm
      ((columnEntries values).filter (·.partition = p)) := by
  rw [← flatMap_getD_threadEntries values hT]
  exact partitionRows_entries env numThreads global _ p

theorem partitionOffset_eq (hT : 0 < numThreads) (p : Nat) :
    (partitionColumn env numThreads global values).partitionOffset numThreads p =
      below Entry.partition (columnEntries values) p := by
  rw [← flatMap_getD_threadEntries values hT]
  exact partitionRows_offset env numThreads global _ p

end

/-- On a column whose rows can be read the build does its two phases. -/
theorem buildParallel_eq {col : ColumnT} (hcol : col.Valid) (numThreads : Nat) (env : BuildEnv)
    (global : GlobalAllocator) (table : HashTable) :
    buildParallel env col numThreads global table =
      .ok (buildDirectory env numThreads (partitionColumn env numThreads
          (global.reset.reserve (numLargeChunks col.numRows numThreads)) col.values) table,
        (partitionColumn env numThreads
          (global.reset.reserve (numLargeChunks col.numRows numThreads)) col.values).global) := by
  have hmapM : ((List.range numThreads).mapM fun t =>
      sliceEntries col (sliceRows col.numRows numThreads t)) =
        .ok ((List.range numThreads).map (threadEntries col.values numThreads)) := by
    refine mapM_eq_ok_iff.mpr (List.forall₂_map_right_iff.mpr (List.forall₂_same.mpr ?_))
    exact fun t _ => sliceEntries_ok hcol numThreads t
  unfold buildParallel
  rw [hmapM]
  rfl

/-- Whatever the order in which the threads take their steps, a key finds its entries. -/
theorem buildParallel_entries {col : ColumnT} (hcol : col.Valid) {sz : Nat}
    (hrows : col.numRows ≤ sz) (hsz : sz < 2 ^ 30) {numThreads : Nat} (hT : 0 < numThreads)
    (env : BuildEnv) (global : GlobalAllocator) :
    ∃ table table' global', HashTable.new env sz = .ok table ∧
      buildParallel env col numThreads global table = .ok (table', global') ∧
      ∀ key, ((table'.entriesIn (table'.lookup key)).filter (·.key = key)).Perm
        ((columnEntries col.values).filter (·.key = key)) := by
  obtain ⟨k, hk, hk', -, hfind⟩ := findShift_ok hsz (Nat.le_of_ble_eq_true rfl : 9 ≤ 30)
  have hnew := HashTable.new_eq env hfind
  generalize htable : HashTable.mk _ _ _ _ _ _ = table at hnew
  let s := partitionColumn env numThreads
    (global.reset.reserve (numLargeChunks col.numRows numThreads)) col.values
  have hbuild : buildParallel env col numThreads global table =
      .ok (buildDirectory env numThreads s table, s.global) :=
    buildParallel_eq hcol numThreads env global table
  have hpart : Partitioned (s.entries numThreads) (s.partitionOffset numThreads) :=
    partitionRows_partitioned env numThreads _ _
  have hfit : env.tuples + 8 * s.partitionOffset numThreads 64 < 2 ^ 48 := by
    have hoffset : s.partitionOffset numThreads 64 = _ := partitionOffset_eq env
      (global.reset.reserve (numLargeChunks col.numRows numThreads)) col.values hT 64
    have hle := below_le_length Entry.partition (columnEntries col.values) 64
    have hlen := length_columnEntries col.values
    have := env.tuples_lt
    have := hcol.numRows
    omega
  have hbuilt : (buildDirectory env numThreads s table).Built k (s.entries numThreads)
      (s.partitionOffset numThreads) := by
    subst htable
    exact buildDirectory_ok env hT (by omega) (by omega) hpart rfl rfl (fun _ => rfl) hfit
  refine ⟨table, _, _, hnew, hbuild, fun key => ?_⟩
  have htuples : (buildDirectory env numThreads s table).tuples = env.tuples := by
    subst htable
    rw [buildDirectory_eq]
    exact (foldl_before _ _).2.1
  rw [hbuilt.entriesIn_lookup (by omega) (by omega) hpart (by rwa [htuples]) key]
  -- Entries with the key are all in its partition.
  have hkey : ((columnEntries col.values).filter (·.partition = partitionOf (crcHash key))).filter
      (·.key = key) = (columnEntries col.values).filter (·.key = key) := by
    rw [List.filter_filter]
    apply List.filter_congr
    intro e _
    by_cases h : e.key = key
    · simp [h, Entry.partition]
    · simp [h]
  rw [← hkey]
  exact (entries_perm env (global.reset.reserve (numLargeChunks col.numRows numThreads))
    col.values hT (partitionOf (crcHash key))).filter (·.key = key)

/-- The row indices of the entries with a key are the rows that have it. -/
theorem map_rowIdx_columnEntries {values : List Value} (h : values.length < 2 ^ 30) (key : Int32) :
    ((columnEntries values).filter (·.key = key)).map (·.rowIdx.toNat) = rowsWith values key := by
  rw [filter_columnEntries, List.map_map]
  conv_rhs => rw [← List.map_id (rowsWith values key)]
  apply List.map_congr_left
  intro i hi
  have hlt := List.mem_range.mp (List.mem_filter.mp hi).1
  show (UInt32.ofNat i).toNat = i
  rw [UInt32.toNat_ofNat', Nat.mod_eq_of_lt (by omega)]

/-- A key finds the rows that have it, once each, and no other row with that key. -/
theorem buildParallel_lookup {col : ColumnT} (hcol : col.Valid) {sz : Nat}
    (hrows : col.numRows ≤ sz)
    (hsz : sz < 2 ^ 30) {numThreads : Nat} (hT : 0 < numThreads) (env : BuildEnv)
    (global : GlobalAllocator) :
    ∃ table table' global', HashTable.new env sz = .ok table ∧
      buildParallel env col numThreads global table = .ok (table', global') ∧
      ∀ key, (((table'.entriesIn (table'.lookup key)).filter (·.key = key)).map
        (·.rowIdx.toNat)).Perm (rowsWith col.values key) := by
  obtain ⟨table, table', global', hnew, hbuild, hentries⟩ :=
    buildParallel_entries hcol hrows hsz hT env global
  refine ⟨table, table', global', hnew, hbuild, fun key => ?_⟩
  have hlen := hcol.numRows
  rw [← map_rowIdx_columnEntries (by omega) key]
  exact (hentries key).map (·.rowIdx.toNat)

/-- Two rows of three hold the key, and the one between them is NULL. -/
theorem buildParallel_lookup_two :
    ∃ table table' global', HashTable.new ⟨4096, by decide, fun _ => ⟨0, 0⟩, [], []⟩ 3 = .ok table ∧
      buildParallel ⟨4096, by decide, fun _ => ⟨0, 0⟩, [], []⟩
        { buffers := [[.int32 7, .null 7, .int32 7]], numRows := 3 } 2 {} table =
          .ok (table', global') ∧
      (((table'.entriesIn (table'.lookup 7)).filter (·.key = 7)).map (·.rowIdx.toNat)).Perm
        [0, 2] := by
  have hvalid : ({ buffers := [[.int32 7, .null 7, .int32 7]], numRows := 3 } : ColumnT).Valid :=
    ⟨rfl, fun _ => ⟨by simp, by simp⟩, nofun⟩
  obtain ⟨table, table', global', hnew, hbuild, hlookup⟩ := buildParallel_lookup hvalid
    (le_refl 3) (by decide) Nat.two_pos ⟨4096, by decide, fun _ => ⟨0, 0⟩, [], []⟩ {}
  exact ⟨table, table', global', hnew, hbuild, hlookup 7⟩

end HashJoin
