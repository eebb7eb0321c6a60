import HashJoin.PartitionProof
import HashJoin.Lib.Buckets
import HashJoin.Lib.TaggedWord

/-!
# The directory and the sorted entries

`postProcessBuild` is a counting sort of the entries of a partition by slot. It reads and writes the
directory words of its partition and its own range of the tuple storage only, so that the order in
which the calls are interleaved does not matter.
-/

namespace HashJoin

open Interleave Buckets TaggedWord

/-- The slot of an entry in a directory of `2 ^ k` words. -/
def Entry.slot (k : Nat) (e : Entry) : Nat := slotOf (UInt64.ofNat (64 - k)) (crcHash e.key)

/-- The tags of the entries of a slot. -/
def slotTag (k : Nat) (entries : List Entry) (s : Nat) : UInt16 :=
  (bucket (Entry.slot k) entries s).foldl (fun tag e => tag ||| tagOf (crcHash e.key)) 0

theorem slotTag_concat (k : Nat) (entries : List Entry) (e : Entry) (s : Nat) :
    slotTag k (entries ++ [e]) s =
      if e.slot k = s then slotTag k entries s ||| tagOf (crcHash e.key)
      else slotTag k entries s := by
  unfold slotTag
  rw [bucket_concat]
  split
  · rw [List.foldl_append]
    rfl
  · rfl

/-- The shift and the storage of a table under construction. -/
structure Static (k tuples : Nat) (s : BuildState) : Prop where
  shift : s.table.shift = UInt64.ofNat (64 - k)
  tuples : s.table.tuples = tuples

@[simp] theorem BuildState.step_shift (s : BuildState) (p : Nat) (b : BuildStep) :
    (s.step p b).table.shift = s.table.shift := by
  cases b <;> rfl

@[simp] theorem BuildState.step_tuples (s : BuildState) (p : Nat) (b : BuildStep) :
    (s.step p b).table.tuples = s.table.tuples := by
  cases b <;> rfl

theorem Static.step {k tuples : Nat} {s : BuildState} (h : Static k tuples s) (p : Nat)
    (b : BuildStep) : Static k tuples (s.step p b) :=
  ⟨(s.step_shift p b).trans h.shift, (s.step_tuples p b).trans h.tuples⟩

/-! ## One partition -/

section

variable {k tuples p prev : Nat} {entries : List Entry}

/-- What a step of partition `p` may touch, whose entries go to the places from `prev` on. -/
def Safe (k tuples : Nat) (offset : Nat → Nat) (p : Nat) (step : BuildStep) (s : BuildState) :
    Prop :=
  match step with
  | .count e | .tag e | .advance e => slotOf s.table.shift (crcHash e.key) / 2 ^ (k - 6) = p
  | .start _ => True
  | .sum i => i / 2 ^ (k - 6) = p
  | .place e => slotOf s.table.shift (crcHash e.key) / 2 ^ (k - 6) = p ∧ ∃ i,
      offset p ≤ i ∧ i < offset (p + 1) ∧
      (s.table.directory (slotOf s.table.shift (crcHash e.key)) >>> 16).toNat = tuples + 8 * i

/-- After the first pass. -/
structure Counted (k tuples : Nat) (done : List Entry) (s : BuildState) : Prop where
  static : Static k tuples s
  directory : ∀ i, s.table.directory i =
    pack (8 * (bucket (Entry.slot k) done i).length) (slotTag k done i)

theorem Counted.step {done : List Entry} {s : BuildState} (h : Counted k tuples done s) (e : Entry)
    (hlen : 8 * (done.length + 1) < 2 ^ 48) :
    Counted k tuples (done ++ [e]) ((s.step p (.count e)).step p (.tag e)) := by
  have hslot : slotOf s.table.shift (crcHash e.key) = e.slot k := by rw [h.static.shift]; rfl
  have hle := List.length_filter_le (fun a => decide (Entry.slot k a = e.slot k)) done
  refine ⟨⟨h.static.shift, h.static.tuples⟩, fun i => ?_⟩
  simp only [BuildState.step, BuildState.setDirectory, hslot, Function.update_self,
    Function.update_idem]
  rw [bucket_concat, slotTag_concat]
  by_cases hi : e.slot k = i
  · subst hi
    rw [Function.update_self, if_pos rfl, if_pos rfl, h.directory, pack_add, pack_or,
      List.length_append]
    · rfl
    · unfold bucket
      omega
  · rw [Function.update_of_ne (Ne.symm hi), if_neg hi, if_neg hi, h.directory]

theorem counted_run {offset : Nat → Nat} (hk : 6 ≤ k) (hk' : k ≤ 64)
    (hpart : ∀ e ∈ entries, e.partition = p) (hlen : 8 * entries.length < 2 ^ 48) {s : BuildState}
    (h : Counted k tuples [] s) :
    SafeRun (fun s b => BuildState.step s p b) (Safe k tuples offset p) s
        (entries.flatMap fun e => [.count e, .tag e]) ∧
      Counted k tuples entries ((entries.flatMap fun e => [.count e, .tag e]).foldl
        (fun s b => BuildState.step s p b) s) := by
  induction entries using List.reverseRecOn with
  | nil => exact ⟨trivial, h⟩
  | append_singleton done e ih =>
    rw [List.length_append, List.length_singleton] at hlen
    obtain ⟨hsafe, hdone⟩ := ih (fun e he => hpart e (List.mem_append_left _ he)) (by omega)
    rw [List.flatMap_append, List.foldl_append, safeRun_append]
    have hslot := slotOf_div hk hk' (crcHash e.key)
    have hpe : partitionOf (crcHash e.key) = p := hpart e (by simp)
    refine ⟨⟨hsafe, ?_, ?_, trivial⟩, hdone.step e hlen⟩
    · show slotOf _ _ / _ = p
      rw [hdone.static.shift, hslot, hpe]
    · show slotOf _ _ / _ = p
      rw [(hdone.static.step p _).shift, hslot, hpe]

/-- In the second pass, after the first `m` slots of the partition. -/
structure Summed (k tuples p prev : Nat) (entries : List Entry) (m : Nat) (s : BuildState) :
    Prop where
  static : Static k tuples s
  cur : s.cur p =
    UInt64.ofNat (tuples + 8 * (prev + below (Entry.slot k) entries (p * 2 ^ (k - 6) + m)))
  directory : ∀ i, i / 2 ^ (k - 6) = p → s.table.directory i =
    pack (if i < p * 2 ^ (k - 6) + m then tuples + 8 * (prev + below (Entry.slot k) entries i)
      else 8 * (bucket (Entry.slot k) entries i).length) (slotTag k entries i)

theorem Entry.slot_range (hk : 6 ≤ k) (hk' : k ≤ 64) {e : Entry} (h : e.partition = p) :
    p * 2 ^ (k - 6) ≤ e.slot k ∧ e.slot k < (p + 1) * 2 ^ (k - 6) := by
  have hslot : e.slot k / 2 ^ (k - 6) = p := (slotOf_div hk hk' (crcHash e.key)).trans h
  have hpos : 0 < 2 ^ (k - 6) := Nat.two_pow_pos _
  exact ⟨(Nat.le_div_iff_mul_le hpos).mp hslot.ge, (Nat.div_lt_iff_lt_mul hpos).mp (by omega)⟩

theorem Counted.start (hk : 6 ≤ k) (hk' : k ≤ 64) (hpart : ∀ e ∈ entries, e.partition = p)
    {s : BuildState} (h : Counted k tuples entries s) :
    Summed k tuples p prev entries 0 (s.step p (.start prev)) := by
  have hbelow : below (Entry.slot k) entries (p * 2 ^ (k - 6)) = 0 :=
    below_eq_zero _ fun e he => (Entry.slot_range hk hk' (hpart e he)).1
  refine ⟨⟨h.static.shift, h.static.tuples⟩, ?_, fun i hi => ?_⟩
  · simp [BuildState.step, h.static.tuples, hbelow]
  · have : ¬ i < p * 2 ^ (k - 6) + 0 := by
      rw [← hi]
      have := Nat.div_mul_le_self i (2 ^ (k - 6))
      omega
    rw [if_neg this]
    exact h.directory i

theorem Summed.step {s : BuildState} {m : Nat} (h : Summed k tuples p prev entries m s)
    (hm : m < 2 ^ (k - 6)) (hfit : tuples + 8 * (prev + entries.length) < 2 ^ 48) :
    Summed k tuples p prev entries (m + 1) (s.step p (.sum (p * 2 ^ (k - 6) + m))) := by
  have hle := below_le_length (Entry.slot k) entries (p * 2 ^ (k - 6) + m)
  have hcount : (bucket (Entry.slot k) entries (p * 2 ^ (k - 6) + m)).length ≤ entries.length :=
    List.length_filter_le _ entries
  have hdiv : (p * 2 ^ (k - 6) + m) / 2 ^ (k - 6) = p := by
    rw [Nat.mul_comm, Nat.mul_add_div (Nat.two_pow_pos _), Nat.div_eq_of_lt hm, Nat.add_zero]
  have hword := h.directory _ hdiv
  rw [if_neg (Nat.lt_irrefl _)] at hword
  refine ⟨⟨h.static.shift, h.static.tuples⟩, ?_, fun i hi => ?_⟩
  · simp only [BuildState.step, BuildState.setDirectory, Function.update_self]
    rw [hword, pack_shiftRight (by omega), h.cur, ← UInt64.ofNat_add, ← Nat.add_assoc,
      below_succ]
    congr 1
    ring
  · simp only [BuildState.step, BuildState.setDirectory]
    by_cases hi' : i = p * 2 ^ (k - 6) + m
    · subst hi'
      rw [Function.update_self, hword, pack_toUInt16 (by omega), h.cur, shiftLeft_or (by omega),
        if_pos (by omega)]
    · rw [Function.update_of_ne hi', h.directory i hi]
      congr 1
      by_cases hlt : i < p * 2 ^ (k - 6) + m
      · rw [if_pos hlt, if_pos (by omega)]
      · rw [if_neg hlt, if_neg (by omega)]

theorem summed_run {offset : Nat → Nat} (hfit : tuples + 8 * (prev + entries.length) < 2 ^ 48)
    {s : BuildState} (h : Summed k tuples p prev entries 0 s) {m : Nat} (hm : m ≤ 2 ^ (k - 6)) :
    SafeRun (fun s b => BuildState.step s p b) (Safe k tuples offset p) s
        ((List.range' (p * 2 ^ (k - 6)) m).map .sum) ∧
      Summed k tuples p prev entries m (((List.range' (p * 2 ^ (k - 6)) m).map .sum).foldl
        (fun s b => BuildState.step s p b) s) := by
  induction m with
  | zero => exact ⟨trivial, h⟩
  | succ m ih =>
    obtain ⟨hsafe, hdone⟩ := ih (by omega)
    rw [List.range'_1_concat, List.map_append, List.foldl_append, safeRun_append]
    refine ⟨⟨hsafe, ?_, trivial⟩, hdone.step (by omega) hfit⟩
    show (p * 2 ^ (k - 6) + m) / 2 ^ (k - 6) = p
    rw [Nat.mul_comm, Nat.mul_add_div (Nat.two_pow_pos _), Nat.div_eq_of_lt (by omega),
      Nat.add_zero]

/-- In the third pass, after the entries `done`. -/
structure Placed (k tuples p prev : Nat) (entries done : List Entry) (s : BuildState) : Prop where
  static : Static k tuples s
  directory : ∀ i, i / 2 ^ (k - 6) = p → s.table.directory i =
    pack (tuples + 8 * (prev + below (Entry.slot k) entries i +
      (bucket (Entry.slot k) done i).length)) (slotTag k entries i)
  memory : ∀ i j, j < (bucket (Entry.slot k) done i).length →
    (bucket (Entry.slot k) done i)[j]? =
      some (s.table.memory (tuples + 8 * (prev + below (Entry.slot k) entries i + j)))

theorem Summed.placed {s : BuildState} (h : Summed k tuples p prev entries (2 ^ (k - 6)) s) :
    Placed k tuples p prev entries [] s := by
  refine ⟨h.static, fun i hi => ?_, by simp⟩
  have hlt : i < p * 2 ^ (k - 6) + 2 ^ (k - 6) := by
    rw [← hi, ← Nat.succ_mul, Nat.succ_eq_add_one, Nat.mul_comm]
    exact Nat.lt_mul_div_succ i (Nat.two_pow_pos _)
  rw [h.directory i hi, if_pos hlt]
  rfl

/-- Where the next entry goes: inside the range of the partition, to a place of its own. -/
theorem Placed.step {s : BuildState} {done rest : List Entry} {e : Entry}
    (h : Placed k tuples p prev entries done s) (hentries : entries = done ++ e :: rest)
    (hslot : e.slot k / 2 ^ (k - 6) = p) (hfit : tuples + 8 * (prev + entries.length) < 2 ^ 48) :
    Placed k tuples p prev entries (done ++ [e]) ((s.step p (.place e)).step p (.advance e)) ∧
      below (Entry.slot k) entries (e.slot k) + (bucket (Entry.slot k) done (e.slot k)).length <
        entries.length ∧
      (s.table.directory (slotOf s.table.shift (crcHash e.key)) >>> 16).toNat =
        tuples + 8 * (prev + below (Entry.slot k) entries (e.slot k) +
          (bucket (Entry.slot k) done (e.slot k)).length) := by
  have hshift : slotOf s.table.shift (crcHash e.key) = e.slot k := by rw [h.static.shift]; rfl
  have hbucket : ∀ i, (bucket (Entry.slot k) done i).length ≤
      (bucket (Entry.slot k) entries i).length := by
    intro i
    rw [hentries, length_bucket_append]
    omega
  have hroom : (bucket (Entry.slot k) done (e.slot k)).length <
      (bucket (Entry.slot k) entries (e.slot k)).length := by
    rw [hentries, length_bucket_append]
    simp [bucket]
  have hle := below_le_length (Entry.slot k) entries (e.slot k + 1)
  rw [below_succ] at hle
  have htarget : (s.table.directory (slotOf s.table.shift (crcHash e.key)) >>> 16).toNat =
      tuples + 8 * (prev + below (Entry.slot k) entries (e.slot k) +
        (bucket (Entry.slot k) done (e.slot k)).length) := by
    rw [hshift, h.directory _ hslot, pack_shiftRight (by omega), UInt64.toNat_ofNat',
      Nat.mod_eq_of_lt (by omega)]
  refine ⟨⟨(h.static.step p _).step p _, fun i hi => ?_, fun i j hj => ?_⟩, by omega, htarget⟩
  · simp only [BuildState.step, BuildState.setDirectory, hshift]
    rw [bucket_concat]
    by_cases heq : e.slot k = i
    · subst heq
      rw [Function.update_self, if_pos rfl, h.directory _ hslot, pack_add, List.length_append]
      rfl
    · rw [Function.update_of_ne (Ne.symm heq), if_neg heq, h.directory i hi]
  · simp only [BuildState.step, BuildState.setDirectory]
    rw [htarget]
    rw [bucket_concat] at hj ⊢
    -- The new entry follows those of its slot, and no other place is written.
    have hkeep : ∀ j', j' < (bucket (Entry.slot k) done i).length →
        tuples + 8 * (prev + below (Entry.slot k) entries i + j') ≠
          tuples + 8 * (prev + below (Entry.slot k) entries (e.slot k) +
            (bucket (Entry.slot k) done (e.slot k)).length) := by
      intro j' hj' heq
      have hplace := place_inj (Entry.slot k) entries
        (lt_of_lt_of_le hj' (hbucket i)) hroom (by omega)
      obtain ⟨rfl, rfl⟩ := hplace
      exact Nat.lt_irrefl _ hj'
    by_cases heq : e.slot k = i
    · subst heq
      rw [if_pos rfl] at hj ⊢
      rw [List.length_append, List.length_singleton] at hj
      by_cases hlast : j = (bucket (Entry.slot k) done (e.slot k)).length
      · subst hlast
        rw [Function.update_self, List.getElem?_concat_length]
      · rw [Function.update_of_ne (hkeep j (by omega)), List.getElem?_append_left (by omega)]
        exact h.memory _ j (by omega)
    · rw [if_neg heq] at hj ⊢
      rw [Function.update_of_ne (hkeep j hj)]
      exact h.memory i j hj

theorem placed_run {offset : Nat → Nat} (hoff : offset p = prev)
    (hoff' : offset (p + 1) = prev + entries.length)
    (hfit : tuples + 8 * (prev + entries.length) < 2 ^ 48)
    (hslot : ∀ e ∈ entries, e.slot k / 2 ^ (k - 6) = p) {s : BuildState}
    (h : Placed k tuples p prev entries [] s) {done rest : List Entry}
    (hentries : entries = done ++ rest) :
    SafeRun (fun s b => BuildState.step s p b) (Safe k tuples offset p) s
        (done.flatMap fun e => [.place e, .advance e]) ∧
      Placed k tuples p prev entries done ((done.flatMap fun e => [.place e, .advance e]).foldl
        (fun s b => BuildState.step s p b) s) := by
  induction done using List.reverseRecOn generalizing rest with
  | nil => exact ⟨trivial, h⟩
  | append_singleton done e ih =>
    rw [List.append_assoc, List.singleton_append] at hentries
    obtain ⟨hsafe, hdone⟩ := ih hentries
    rw [List.flatMap_append, List.foldl_append, safeRun_append]
    have hes := hslot e (by simp [hentries])
    obtain ⟨hnext, hroom, htarget⟩ := hdone.step hentries hes hfit
    refine ⟨⟨hsafe, ⟨?_, _, ?_, ?_, htarget⟩, ?_, trivial⟩, hnext⟩
    · rw [hdone.static.shift]
      exact hes
    · omega
    · omega
    · show slotOf _ _ / _ = p
      rw [(hdone.static.step p _).shift]
      exact hes

theorem two_pow_eq (hk : 6 ≤ k) : 2 ^ k = 64 * 2 ^ (k - 6) := by
  rw [show (64 : Nat) = 2 ^ 6 by rfl, ← Nat.pow_add]
  congr 1
  omega

/-- Where the slots of partition `q` begin. -/
theorem range_start (hk : 6 ≤ k) (q : Nat) : q * 2 ^ k / 64 = q * 2 ^ (k - 6) := by
  rw [two_pow_eq hk, Nat.mul_left_comm, Nat.mul_div_cancel_left _ (by decide)]

theorem bits_of_shift (hk' : k ≤ 64) : 64 - (UInt64.ofNat (64 - k)).toNat = k := by
  rw [UInt64.toNat_ofNat', Nat.mod_eq_of_lt (by omega)]
  omega

/-- The call for one partition on its own. -/
theorem postProcessBuild_run {offset : Nat → Nat} (hk : 6 ≤ k) (hk' : k ≤ 64)
    (hoff : offset p = prev) (hoff' : offset (p + 1) = prev + entries.length)
    (hfit : tuples + 8 * (prev + entries.length) < 2 ^ 48)
    (hpart : ∀ e ∈ entries, e.partition = p) {s : BuildState} (h : Counted k tuples [] s) :
    SafeRun (fun s b => BuildState.step s p b) (Safe k tuples offset p) s
        (postProcessBuild (UInt64.ofNat (64 - k)) p prev entries) ∧
      Placed k tuples p prev entries entries
        ((postProcessBuild (UInt64.ofNat (64 - k)) p prev entries).foldl
          (fun s b => BuildState.step s p b) s) := by
  have hlen : (p + 1) * 2 ^ (k - 6) - p * 2 ^ (k - 6) = 2 ^ (k - 6) := by
    rw [Nat.succ_mul, Nat.add_sub_cancel_left]
  unfold postProcessBuild
  simp only [bits_of_shift hk', range_start hk, hlen]
  obtain ⟨hsafe₁, hcounted⟩ := counted_run hk hk' hpart (by omega) h
  obtain ⟨hsafe₂, hsummed⟩ := summed_run hfit (hcounted.start hk hk' hpart) le_rfl
  obtain ⟨hsafe₃, hplaced⟩ := placed_run hoff hoff' hfit
    (fun e he => (slotOf_div hk hk' (crcHash e.key)).trans (hpart e he)) hsummed.placed
    (List.append_nil entries).symm
  simp only [safeRun_append, List.foldl_append, List.foldl_cons]
  exact ⟨⟨⟨hsafe₁, trivial, hsafe₂⟩, hsafe₃⟩, hplaced⟩

end

/-! ## All partitions -/

/-- The part of the state that belongs to partition `p`. -/
structure Same (k base : Nat) (offset : Nat → Nat) (p : Nat) (s s' : BuildState) : Prop where
  shift : s.table.shift = s'.table.shift
  tuples : s.table.tuples = s'.table.tuples
  cur : s.cur p = s'.cur p
  directory : ∀ i, i / 2 ^ (k - 6) = p → s.table.directory i = s'.table.directory i
  memory : ∀ i, offset p ≤ i → i < offset (p + 1) →
    s.table.memory (base + 8 * i) = s'.table.memory (base + 8 * i)

section

variable {k base p q : Nat} {offset : Nat → Nat} {s s' : BuildState}

theorem Same.setDirectory (h : Same k base offset p s s') (i : Nat) (word : UInt64) :
    Same k base offset p (s.setDirectory i word) (s'.setDirectory i word) := by
  refine ⟨h.shift, h.tuples, h.cur, fun j hj => ?_, h.memory⟩
  simp only [BuildState.setDirectory]
  by_cases hji : j = i
  · rw [hji, Function.update_self, Function.update_self]
  · rw [Function.update_of_ne hji, Function.update_of_ne hji, h.directory j hj]

/-- A step takes equal parts to equal parts. -/
theorem Same.step (h : Same k base offset p s s') {b : BuildStep}
    (hsafe : Safe k base offset p b s') :
    Same k base offset p (s.step p b) (s'.step p b) := by
  cases b with
  | count e | advance e | tag e =>
    simp only [BuildState.step, h.shift]
    rw [h.directory _ hsafe]
    exact h.setDirectory _ _
  | start prev =>
    refine ⟨h.shift, h.tuples, ?_, h.directory, h.memory⟩
    simp only [BuildState.step, h.tuples, Function.update_self]
  | sum i =>
    have hset := h.setDirectory i
      (s'.cur p <<< 16 ||| (s'.table.directory i).toUInt16.toUInt64)
    simp only [BuildState.step, h.cur, h.directory i hsafe]
    exact ⟨hset.shift, hset.tuples, by simp, hset.directory, hset.memory⟩
  | place e =>
    simp only [BuildState.step, h.shift, h.directory _ hsafe.1]
    refine ⟨rfl, h.tuples, h.cur, h.directory, fun i hlo hhi => ?_⟩
    dsimp only
    by_cases hi : base + 8 * i =
        (s'.table.directory (slotOf s'.table.shift (crcHash e.key)) >>> 16).toNat
    · rw [hi, Function.update_self, Function.update_self]
    · rw [Function.update_of_ne hi, Function.update_of_ne hi, h.memory i hlo hhi]

theorem same_setDirectory (s : BuildState) {i : Nat} (word : UInt64) (hi : i / 2 ^ (k - 6) ≠ q) :
    Same k base offset q (s.setDirectory i word) s := by
  refine ⟨rfl, rfl, rfl, fun j hj => ?_, fun _ _ _ => rfl⟩
  have hji : j ≠ i := fun heq => hi (heq ▸ hj)
  simp only [BuildState.setDirectory]
  rw [Function.update_of_ne hji]

/-- A step of one partition leaves the parts of the others alone. -/
theorem same_step (hmono : Monotone offset) {b : BuildStep} (hsafe : Safe k base offset p b s)
    (hne : p ≠ q) : Same k base offset q (s.step p b) s := by
  cases b with
  | count e | advance e | tag e => exact same_setDirectory s _ fun heq => hne (hsafe.symm.trans heq)
  | start prev =>
    refine ⟨rfl, rfl, ?_, fun _ _ => rfl, fun _ _ _ => rfl⟩
    simp only [BuildState.step]
    rw [Function.update_of_ne (Ne.symm hne)]
  | sum i =>
    have hset : Same k base offset q (s.setDirectory i
        (s.cur p <<< 16 ||| (s.table.directory i).toUInt16.toUInt64)) s :=
      same_setDirectory s _ fun heq => hne (hsafe.symm.trans heq)
    refine ⟨hset.shift, hset.tuples, ?_, hset.directory, hset.memory⟩
    simp only [BuildState.step]
    rw [Function.update_of_ne (Ne.symm hne)]
  | place e =>
    obtain ⟨-, i, hlo, hhi, htarget⟩ := hsafe
    refine ⟨rfl, rfl, rfl, fun _ _ => rfl, fun j hlo' hhi' => ?_⟩
    have hij : i ≠ j := by
      rintro rfl
      rcases Nat.lt_or_gt_of_ne hne with hlt | hlt
      · have : offset (p + 1) ≤ offset q := hmono hlt
        omega
      · have : offset (q + 1) ≤ offset p := hmono hlt
        omega
    simp only [BuildState.step]
    rw [htarget, Function.update_of_ne (by omega)]

end

/-- A step together with the partition of its call. -/
def BuildState.callStep (s : BuildState) (x : Nat × BuildStep) : BuildState := s.step x.1 x.2

/-- A call reads and writes nothing that belongs to another partition. -/
theorem build_local (k base : Nat) {offset : Nat → Nat} (hmono : Monotone offset) :
    Local BuildState.callStep Prod.fst (Same k base offset)
      (fun x s => Safe k base offset x.1 x.2 s) where
  refl p s := ⟨rfl, rfl, rfl, fun _ _ => rfl, fun _ _ _ => rfl⟩
  trans h h' := ⟨h.shift.trans h'.shift, h.tuples.trans h'.tuples, h.cur.trans h'.cur,
    fun i hi => (h.directory i hi).trans (h'.directory i hi),
    fun i hlo hhi => (h.memory i hlo hhi).trans (h'.memory i hlo hhi)⟩
  safe := by
    rintro ⟨p, b⟩ s s' h hsafe
    cases b with
    | count e | tag e | advance e =>
      simp only [Safe] at hsafe ⊢
      rw [h.shift]
      exact hsafe
    | start prev => trivial
    | sum i => exact hsafe
    | place e =>
      obtain ⟨hslot, i, hlo, hhi, htarget⟩ := hsafe
      refine ⟨by rw [h.shift]; exact hslot, i, hlo, hhi, ?_⟩
      rw [h.shift, h.directory _ hslot]
      exact htarget
  congr h hsafe := h.step hsafe
  frame hsafe hne := same_step hmono hsafe hne

end HashJoin
