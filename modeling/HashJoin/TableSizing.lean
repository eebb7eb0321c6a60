import HashJoin.HashTableProof

/-!
# The size of the directory

The constructor looks for the first power of two above the number of rows, from 512 on, by shifts of
the `int` 1. From `2 ^ 30` rows on that would be `2 ^ 31`, which is no `int`. Below, every hash has
a slot in the directory, and each partition has the slots of its hashes.
-/

namespace HashJoin

/-- What the rest of the code takes from the constructor, for `sz` rows. The slots of a partition
are those over which `postProcessBuild` loops. -/
structure HashTable.Sized (table : HashTable) (sz : Nat) : Prop where
  power : ∃ k, table.capacity = 2 ^ k
  least : 512 ≤ table.capacity
  room : sz < table.capacity
  shift : table.shift.toNat = 64 - Nat.log2 table.capacity
  slots : ∀ i, i < table.capacity ↔ ∃ hash, slotOf table.shift hash = i
  /-- `(partition + 1) << k` is in the range of `uint64_t`. -/
  bound : ∀ p < 64, (p + 1) * 2 ^ (64 - table.shift.toNat) < 2 ^ 64
  range : ∀ p < 64, ∀ prevCount entries i,
    .sum i ∈ postProcessBuild table.shift p prevCount entries ↔
      ∃ hash, partitionOf hash = p ∧ slotOf table.shift hash = i
  partition : ∀ p < 64, ∀ prevCount entries hash,
    .sum (slotOf table.shift hash) ∈ postProcessBuild table.shift p prevCount entries ↔
      partitionOf hash = p

/-! ## Slots and partitions -/

section

variable {k : Nat}

/-- A hash with the given slot. -/
theorem exists_slotOf (hk : 0 < k) (hk' : k ≤ 64) {i : Nat} (hi : i < 2 ^ k) :
    ∃ hash, slotOf (UInt64.ofNat (64 - k)) hash = i := by
  have hpow : 2 ^ k * 2 ^ (64 - k) = 2 ^ 64 := by rw [← Nat.pow_add]; congr 1; omega
  have hlt : i * 2 ^ (64 - k) < 2 ^ 64 := by
    rw [← hpow]
    exact Nat.mul_lt_mul_of_pos_right hi (Nat.two_pow_pos _)
  refine ⟨UInt64.ofNat (i * 2 ^ (64 - k)), ?_⟩
  rw [slotOf_eq hk hk', UInt64.toNat_ofNat', Nat.mod_eq_of_lt hlt,
    Nat.mul_div_cancel _ (Nat.two_pow_pos _)]

/-- The loop over the slots of a partition. -/
theorem sum_mem_postProcessBuild (hk : 6 ≤ k) (hk' : k ≤ 64) {p prevCount i : Nat}
    {entries : List Entry} :
    .sum i ∈ postProcessBuild (UInt64.ofNat (64 - k)) p prevCount entries ↔
      i / 2 ^ (k - 6) = p := by
  unfold postProcessBuild
  simp only [bits_of_shift hk', range_start hk]
  -- no step of the two passes over the entries is one of this loop
  calc _ ↔ .sum i ∈ (List.range' (p * 2 ^ (k - 6))
        ((p + 1) * 2 ^ (k - 6) - p * 2 ^ (k - 6))).map BuildStep.sum := by simp
    _ ↔ p * 2 ^ (k - 6) ≤ i ∧ i < (p + 1) * 2 ^ (k - 6) := by
      rw [List.mem_map_of_injective fun _ _ => BuildStep.sum.inj, List.mem_range'_1, Nat.succ_mul]
      omega
    _ ↔ i / 2 ^ (k - 6) = p := by
      rw [Nat.div_eq_iff (Nat.two_pow_pos _), Nat.succ_mul]
      have hpos : 0 < 2 ^ (k - 6) := Nat.two_pow_pos _
      omega

theorem slotOf_partition (hk : 6 ≤ k) (hk' : k ≤ 64) {p i : Nat} (hp : p < 64) :
    i / 2 ^ (k - 6) = p ↔
      ∃ hash, partitionOf hash = p ∧ slotOf (UInt64.ofNat (64 - k)) hash = i := by
  constructor
  · intro h
    have hi : i < 2 ^ k := by
      rw [two_pow_eq hk, ← Nat.div_lt_iff_lt_mul (Nat.two_pow_pos _), h]
      exact hp
    obtain ⟨hash, hslot⟩ := exists_slotOf (by omega) hk' hi
    refine ⟨hash, ?_, hslot⟩
    rw [← slotOf_div hk hk', hslot, h]
  · rintro ⟨hash, hpart, hslot⟩
    rw [← hslot, slotOf_div hk hk', hpart]

end

/-! ## The constructor -/

theorem findShift_error {sz : Nat} (hsz : 2 ^ 30 ≤ sz) (shiftVal : Nat) :
    findShift sz shiftVal = .error .overflow := by
  unfold findShift
  split
  · rfl
  · have hpow : 2 ^ shiftVal ≤ 2 ^ 30 := Nat.pow_le_pow_right Nat.two_pos (by omega)
    rw [if_pos (hpow.trans hsz)]
    exact findShift_error hsz (shiftVal + 1)
termination_by 31 - shiftVal

theorem HashTable.new_error (env : BuildEnv) {sz : Nat} (hsz : 2 ^ 30 ≤ sz) :
    HashTable.new env sz = .error .overflow := by
  unfold HashTable.new
  rw [findShift_error hsz]
  rfl

/-- The table that the constructor returns. -/
theorem HashTable.of_new {env : BuildEnv} {sz : Nat} {table : HashTable}
    (h : HashTable.new env sz = .ok table) : ∃ k, 9 ≤ k ∧ k ≤ 30 ∧ table =
      { before := UInt64.ofNat env.tuples <<< 16, directory := fun _ => 0, tuples := env.tuples,
        memory := fun _ => ⟨0, 0⟩, shift := UInt64.ofNat (64 - k), capacity := 2 ^ k } := by
  obtain ⟨k, hfind, -⟩ := bind_eq_ok.mp h
  rw [HashTable.new_eq env hfind] at h
  obtain ⟨hk, hk', -⟩ := findShift_spec hfind
  exact ⟨k, hk, hk', (Except.ok.inj h).symm⟩

theorem HashTable.new_ok (env : BuildEnv) {sz : Nat} (hsz : sz < 2 ^ 30) :
    ∃ k table, HashTable.new env sz = .ok table ∧ 9 ≤ k ∧ k ≤ 30 ∧ sz < 2 ^ k ∧
      table.capacity = 2 ^ k ∧ table.shift = UInt64.ofNat (64 - k) := by
  obtain ⟨k, hk, hk', hszk, hfind⟩ := findShift_ok hsz (Nat.le_of_ble_eq_true rfl : 9 ≤ 30)
  exact ⟨k, _, HashTable.new_eq env hfind, hk, hk', hszk, rfl, rfl⟩

theorem HashTable.sized {table : HashTable} {sz k : Nat} (hk : 9 ≤ k) (hk' : k ≤ 30)
    (hsz : sz < 2 ^ k) (hcapacity : table.capacity = 2 ^ k)
    (hshift : table.shift = UInt64.ofNat (64 - k)) : table.Sized sz := by
  have hbits : table.shift.toNat = 64 - k := by
    rw [hshift, UInt64.toNat_ofNat', Nat.mod_eq_of_lt (by omega)]
  refine ⟨⟨k, hcapacity⟩, ?_, hcapacity ▸ hsz, ?_, fun i => ?_, fun p hp => ?_,
    fun p hp prevCount entries i => ?_, fun p hp prevCount entries hash => ?_⟩
  · rw [hcapacity]
    exact Nat.pow_le_pow_right Nat.two_pos hk
  · rw [hbits, hcapacity, Nat.log2_two_pow]
  · rw [hcapacity, hshift]
    constructor
    · exact exists_slotOf (by omega) (by omega)
    · rintro ⟨hash, rfl⟩
      exact slotOf_lt (by omega) (by omega) hash
  · have hpow : 2 ^ (64 - table.shift.toNat) ≤ 2 ^ 30 :=
      Nat.pow_le_pow_right Nat.two_pos (by omega)
    calc (p + 1) * 2 ^ (64 - table.shift.toNat) ≤ 64 * 2 ^ 30 := Nat.mul_le_mul hp hpow
      _ < 2 ^ 64 := by decide
  · rw [hshift, sum_mem_postProcessBuild (by omega) (by omega)]
    exact slotOf_partition (by omega) (by omega) hp
  · rw [hshift, sum_mem_postProcessBuild (by omega) (by omega), slotOf_div (by omega) (by omega)]

/-- The constructor sizes the table when there are fewer than `2 ^ 30` rows, and otherwise leaves
the range of `int`. -/
theorem HashTable.new_sized_iff (env : BuildEnv) (sz : Nat) :
    (∃ table, HashTable.new env sz = .ok table ∧ table.Sized sz) ↔ sz < 2 ^ 30 := by
  constructor
  · rintro ⟨table, hnew, -⟩
    by_contra hsz
    rw [HashTable.new_error env (Nat.le_of_not_lt hsz)] at hnew
    cases hnew
  · intro hsz
    obtain ⟨k, table, hnew, hk, hk', hszk, hcapacity, hshift⟩ := HashTable.new_ok env hsz
    exact ⟨table, hnew, HashTable.sized hk hk' hszk hcapacity hshift⟩

/-- A quarter of the row indices is too many. -/
theorem HashTable.new_not_sized :
    2 ^ 30 < UInt32.size ∧ ¬ ∃ table,
      HashTable.new ⟨4096, by decide, fun _ => ⟨0, 0⟩, [], []⟩ (2 ^ 30) = .ok table ∧
        table.Sized (2 ^ 30) := by
  refine ⟨by decide, ?_⟩
  rintro ⟨table, hnew, -⟩
  rw [HashTable.new_error _ le_rfl] at hnew
  cases hnew

end HashJoin
