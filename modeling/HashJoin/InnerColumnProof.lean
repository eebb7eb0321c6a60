import HashJoin.FromColumnar
import HashJoin.InnerColumn

/-!
# What the filters compute

The bitmap of a filter says of each row what the evaluation on its record says. The threads write
disjoint bytes, so their order does not matter; inside a byte the kernels add one bit after another.
-/

namespace HashJoin

open Bytes Interleave

/-! ## The threads -/

/-- Steps of any order change each byte by the steps of that byte only. -/
theorem foldlM_store {α : Type} (ws : List (α × ByteWrite)) (bytes : List UInt8)
    (h : ∀ w ∈ ws, w.2.byte < bytes.length) :
    ws.foldlM (fun bytes w => w.2.store bytes) bytes =
      .ok (bytes.mapIdx fun k v =>
        (ws.filter fun w => w.2.byte = k).foldl (fun v w => w.2.update v) v) := by
  induction ws generalizing bytes with
  | nil => exact congrArg Except.ok (List.ext_getElem (by simp) fun k _ _ => by simp)
  | cons w ws ih =>
    have hw := h w (by simp)
    have hstore : w.2.store bytes = .ok (bytes.modify w.2.byte w.2.update) := if_pos hw
    have hrest : ∀ w' ∈ ws, w'.2.byte < (bytes.modify w.2.byte w.2.update).length :=
      fun w' hw' => by
        rw [List.length_modify]
        exact h w' (by simp [hw'])
    rw [List.foldlM_cons, hstore, ok_bind, ih _ hrest]
    refine congrArg Except.ok (List.ext_getElem (by simp) fun k hk hk' => ?_)
    rw [List.getElem_mapIdx, List.getElem_mapIdx, List.getElem_modify]
    by_cases hbyte : w.2.byte = k
    · rw [if_pos hbyte, List.filter_cons_of_pos (by simpa using hbyte), List.foldl_cons]
    · rw [if_neg hbyte, List.filter_cons_of_neg (by simpa using hbyte)]

/-- The steps of a task for the bytes `first` to `last`, which `updates` lists for each byte. -/
def byteSteps (updates : Nat → List (UInt8 → UInt8)) (first last : Nat) : List ByteWrite :=
  (List.range' first (last - first)).flatMap fun k => (updates k).map (ByteWrite.mk k)

theorem mem_byteSteps {updates : Nat → List (UInt8 → UInt8)} {first last : Nat} {w : ByteWrite}
    (h : w ∈ byteSteps updates first last) : first ≤ w.byte ∧ w.byte < last := by
  obtain ⟨k, hk, hw⟩ := List.mem_flatMap.mp h
  obtain ⟨f, -, rfl⟩ := List.mem_map.mp hw
  have := List.mem_range'_1.mp hk
  change first ≤ k ∧ k < last
  omega

theorem filter_byteSteps (updates : Nat → List (UInt8 → UInt8)) {first last k : Nat}
    (hlo : first ≤ k) (hhi : k < last) :
    (byteSteps updates first last).filter (fun w => w.byte = k) =
      (updates k).map (ByteWrite.mk k) := by
  obtain ⟨a, rfl⟩ : ∃ a, k = first + a := ⟨k - first, by omega⟩
  obtain ⟨b, rfl⟩ : ∃ b, last = first + a + (b + 1) := ⟨last - (first + a) - 1, by omega⟩
  have hnone : ∀ s len, (s + len ≤ first + a ∨ first + a < s) →
      ((List.range' s len).flatMap fun k => (updates k).map (ByteWrite.mk k)).filter
        (fun w => w.byte = first + a) = [] := by
    intro s len hout
    apply List.filter_eq_nil_iff.mpr
    intro w hw
    have hmem : s ≤ w.byte ∧ w.byte < s + len :=
      mem_byteSteps (by rwa [byteSteps, Nat.add_sub_cancel_left])
    simp only [decide_eq_true_eq]
    omega
  have hself : ((updates (first + a)).map (ByteWrite.mk (first + a))).filter
      (fun w => w.byte = first + a) = (updates (first + a)).map (ByteWrite.mk (first + a)) := by
    rw [List.filter_eq_self]
    intro w hw
    obtain ⟨f, -, rfl⟩ := List.mem_map.mp hw
    simp
  have hsplit : List.range' first (first + a + (b + 1) - first) =
      List.range' first a ++ (first + a) :: List.range' (first + a + 1) b := by
    rw [← List.range'_succ, List.range'_append_1]
    congr 1
    omega
  unfold byteSteps
  rw [hsplit, List.flatMap_append, List.flatMap_cons, List.filter_append,
    List.filter_append, hnone _ _ (by omega), hnone _ _ (by omega), hself]
  simp

namespace FilterThreadPool

/-- A run on at least one thread takes at each of the first `m` bytes the steps of that byte. -/
theorem run_eq {n : Nat} (hn : 0 < n) (sched : List Nat) {m : Nat}
    {task : Nat → Nat → Except EvalFault (List ByteWrite)} (updates : Nat → List (UInt8 → UInt8))
    (htask : ∀ first last, first < last → last ≤ m →
      task first last = .ok (byteSteps updates first last))
    {bytes : List UInt8} (hm : m ≤ bytes.length) :
    run n sched task m bytes =
      .ok (bytes.mapIdx fun k v => if k < m then (updates k).foldl (fun v f => f v) v else v) := by
  let prog := fun t => byteSteps updates (beginIdx n m t) (beginIdx n m (t + 1))
  have hle : ∀ t < n, beginIdx n m (t + 1) ≤ m := fun t ht => by
    have := beginIdx_mono n m (show t + 1 ≤ n from ht)
    rwa [beginIdx_last hn] at this
  have hprograms : (List.range n).mapM (program n task m) = .ok ((List.range n).map prog) := by
    apply mapM_eq_map
    intro t ht
    unfold program rangeOf
    by_cases hlt : beginIdx n m t < beginIdx n m (t + 1)
    · simp only [hlt, if_true]
      exact htask _ _ hlt (hle t (List.mem_range.mp ht))
    · have hnil : prog t = [] := by
        have hzero : beginIdx n m (t + 1) - beginIdx n m t = 0 := by omega
        simp [prog, byteSteps, hzero]
      simp only [hlt, if_false, hnil]
  have hget : ∀ t < n, ((List.range n).map prog).getD t [] = prog t := fun t ht => by
    simp [ht]
  have hmem : ∀ w ∈ complete n (fun t => ((List.range n).map prog).getD t []) sched,
      w.1 < n ∧ w.2 ∈ prog w.1 := fun w hw => by
    obtain ⟨hlt, hmem⟩ := mem_complete hw
    rw [hget w.1 hlt] at hmem
    exact ⟨hlt, hmem⟩
  have hin : ∀ w ∈ complete n (fun t => ((List.range n).map prog).getD t []) sched,
      w.2.byte < m := fun w hw => by
    obtain ⟨hlt, hmem⟩ := hmem w hw
    exact (mem_byteSteps hmem).2.trans_le (hle w.1 hlt)
  unfold run
  rw [hprograms, ok_bind, foldlM_store _ _ fun w hw => (hin w hw).trans_le hm]
  refine congrArg Except.ok (List.ext_getElem (by simp) fun k hk hk' => ?_)
  rw [List.getElem_mapIdx, List.getElem_mapIdx]
  split
  · next hkm =>
    obtain ⟨t, ht, hlo, hhi⟩ := ((splits hn m).covers k).mp hkm
    have howner : ∀ u < n, ∀ w ∈ ((List.range n).map prog).getD u [], w.byte = k → u = t := by
      intro u hu w hw hbyte
      rw [hget u hu] at hw
      have := mem_byteSteps hw
      exact (splits hn m).disjoint u t k (by omega) (by omega) hlo hhi
    rw [filter_agent sched ByteWrite.byte ht howner, hget t ht, filter_byteSteps _ hlo hhi]
    simp [List.foldl_map]
  · next hkm =>
    have hnil : (complete n (fun t => ((List.range n).map prog).getD t []) sched).filter
        (fun w => w.2.byte = k) = [] := by
      apply List.filter_eq_nil_iff.mpr
      intro w hw
      have := hin w hw
      simp only [decide_eq_true_eq]
      omega
    rw [hnil, List.foldl_nil]

end FilterThreadPool

/-! ## Bits of a byte -/

theorem testBit_bitOfBool (b : Bool) {j k : Nat} (hj : j < 8) (hk : k < 8) :
    testBit (bitOfBool b j) k = (decide (k = j) && b) := by
  cases b
  · simp [bitOfBool, testBit_zero]
  · unfold bitOfBool
    rw [if_pos rfl, testBit_eq _ hk, toBitVec_one_shiftLeft hj, BitVec.getLsbD_twoPow]
    simp [hj, eq_comm]

/-- `bits & (1 << j) & (b << j)` is the bit `j` of both. -/
theorem and_bitOfBool (bits : UInt8) (b : Bool) {j : Nat} (hj : j < 8) :
    bits &&& (1 <<< UInt8.ofNat j) &&& bitOfBool b j = bitOfBool (testBit bits j && b) j := by
  refine UInt8.toBitVec_inj.mp (BitVec.eq_of_getLsbD_eq fun k hk => ?_)
  have hone : (1 : UInt8) <<< UInt8.ofNat j = bitOfBool true j := rfl
  rw [← testBit_eq _ hk, ← testBit_eq _ hk, hone, testBit_and _ _ hk, testBit_and _ _ hk,
    testBit_bitOfBool _ hj hk, testBit_bitOfBool _ hj hk, testBit_bitOfBool _ hj hk]
  by_cases hkj : k = j
  · simp [hkj]
  · simp [hkj]

/-- A kernel adds the bits of a byte from the first on. -/
theorem testBit_foldl_or (p : Nat → Bool) {cnt k : Nat} (hcnt : cnt ≤ 8) (hk : k < 8) (v : UInt8) :
    testBit (((List.range cnt).map fun j => (· ||| bitOfBool (p j) j)).foldl (fun v f => f v) v) k =
      (testBit v k || decide (k < cnt) && p k) := by
  induction cnt with
  | zero => simp
  | succ cnt ih =>
    rw [List.range_succ, List.map_append, List.foldl_append, List.map_singleton, List.foldl_cons,
      List.foldl_nil, testBit_or _ _ hk, ih (by omega), testBit_bitOfBool _ (by omega) hk]
    rcases Nat.lt_trichotomy k cnt with h | h | h
    · simp [h, h.ne, Nat.lt_succ_of_lt h]
    · simp [h]
    · simp [h.ne', Nat.not_lt.mpr h.le, show ¬ k < cnt + 1 by omega]

/-! ## Bitmaps -/

/-- A bitmap for `len` rows whose bit says of each row whether it satisfies `p`. The bits past the
last row may be anything. -/
structure Selects (len : Nat) (p : Nat → Bool) (bitmap : List UInt8) : Prop where
  size : bitmap.length = (len + 7) / 8
  bit : ∀ i < len, bitOf bitmap i = p i

namespace Selects

variable {len : Nat} {p q : Nat → Bool} {bitmap : List UInt8}

theorem congr (h : Selects len p bitmap) (hpq : ∀ i < len, p i = q i) : Selects len q bitmap :=
  ⟨h.size, fun i hi => (h.bit i hi).trans (hpq i hi)⟩

/-- The byte of a row is there, and its bit is that of the row. -/
theorem byteAt (h : Selects len p bitmap) {i : Nat} (hi : i < len) :
    ∃ byte, byteAt bitmap (i / 8) = .ok byte ∧ testBit byte (i % 8) = p i := by
  have hlt : i / 8 < bitmap.length := by
    rw [h.size]
    omega
  refine ⟨bitmap[i / 8], by simp [HashJoin.byteAt, hlt], ?_⟩
  rw [← h.bit i hi, bitOf, bitAt]
  simp [hlt]

theorem isNotNull (h : Selects len p bitmap) {i : Nat} (hi : i < len) :
    isNotNull bitmap i = .ok (p i) := by
  obtain ⟨byte, hbyte, hbit⟩ := h.byteAt hi
  unfold HashJoin.isNotNull
  rw [hbyte, ok_bind, hbit]

end Selects

/-- The bitmap that a run over all its bytes leaves. -/
theorem selects_mapIdx {len : Nat} {p : Nat → Bool} {bytes : List UInt8} {f : Nat → UInt8 → UInt8}
    (hsize : bytes.length = (len + 7) / 8)
    (hbit : ∀ i (h : i / 8 < bytes.length), i < len →
      testBit (f (i / 8) bytes[i / 8]) (i % 8) = p i) :
    Selects len p (bytes.mapIdx f) := by
  refine ⟨by rw [List.length_mapIdx, hsize], fun i hi => ?_⟩
  have hlt : i / 8 < bytes.length := by omega
  unfold bitOf
  rw [bitAt, ← hbit i hlt hi]
  simp [hlt]

/-- A task that computes one byte after another. -/
theorem byteTask_eq {update : Nat → Except EvalFault (UInt8 → UInt8)} {f : Nat → UInt8 → UInt8}
    {m : Nat} (h : ∀ i < m, update i = .ok (f i)) {first last : Nat} (hlast : last ≤ m) :
    byteTask update first last = .ok (byteSteps (fun i => [f i]) first last) := by
  have hstep : ∀ i ∈ List.range' first (last - first),
      (do .ok ⟨i, ← update i⟩ : Except EvalFault ByteWrite) = .ok ⟨i, f i⟩ := fun i hi => by
    have := List.mem_range'_1.mp hi
    rw [h i (by omega), ok_bind]
  unfold byteTask
  rw [mapM_eq_map hstep, byteSteps, List.map_eq_flatMap]
  rfl

section Pool

variable {n : Nat} (hn : 0 < n) (sched : List Nat)
include hn

theorem bitmapNot_ok {len : Nat} {p : Nat → Bool} {bitmap : List UInt8}
    (h : Selects len p bitmap) :
    ∃ ret, bitmapNot n sched bitmap = .ok ret ∧ Selects len (fun i => !p i) ret := by
  refine ⟨_, FilterThreadPool.run_eq hn sched (fun _ => [(~~~ ·)])
    (fun _ _ _ hlast => byteTask_eq (fun _ _ => rfl) hlast) le_rfl, ?_⟩
  apply selects_mapIdx h.size
  intro i hlt hi
  have hbit := h.bit i hi
  rw [bitOf, bitAt] at hbit
  rw [if_pos hlt, ← hbit]
  simp [testBit_not _ (Nat.mod_lt i (show 0 < 8 by decide)), hlt]

/-- `bitmap_and` and `bitmap_or` find two bitmaps of one size. -/
theorem bitmapCombine_ok {op : UInt8 → UInt8 → UInt8} {opBit : Bool → Bool → Bool}
    (hop : ∀ a b k, k < 8 → testBit (op a b) k = opBit (testBit a k) (testBit b k))
    {len : Nat} {p q : Nat → Bool} {lhs rhs : List UInt8} (hl : Selects len p lhs)
    (hr : Selects len q rhs) :
    ∃ ret, bitmapCombine n sched op lhs rhs = .ok ret ∧
      Selects len (fun i => opBit (p i) (q i)) ret := by
  have hsize : lhs.length = rhs.length := hl.size.trans hr.size.symm
  have hstep : ∀ i < lhs.length, (do
      let l ← byteAt lhs i
      let r ← byteAt rhs i
      .ok fun _ => op l r : Except EvalFault (UInt8 → UInt8)) =
        .ok fun _ => op (lhs.getD i 0) (rhs.getD i 0) := fun i hi => by
    simp [byteAt, hi, hsize ▸ hi]
  have hrun := FilterThreadPool.run_eq hn sched
    (fun i => [fun _ => op (lhs.getD i 0) (rhs.getD i 0)])
    (fun _ _ _ hlast => byteTask_eq hstep hlast)
    (show lhs.length ≤ (List.replicate lhs.length 0).length by simp)
  refine ⟨_, (if_pos hsize).trans hrun, selects_mapIdx (by simp [hl.size]) fun i hlt hi => ?_⟩
  rw [List.length_replicate] at hlt
  rw [if_pos hlt, ← hl.bit i hi, ← hr.bit i hi]
  exact hop _ _ _ (Nat.mod_lt i (by decide))

theorem bitmapAnd_ok {len : Nat} {p q : Nat → Bool} {lhs rhs : List UInt8}
    (hl : Selects len p lhs) (hr : Selects len q rhs) :
    ∃ ret, bitmapAnd n sched lhs rhs = .ok ret ∧ Selects len (fun i => p i && q i) ret :=
  bitmapCombine_ok hn sched (fun a b _ hk => testBit_and a b hk) hl hr

theorem bitmapOr_ok {len : Nat} {p q : Nat → Bool} {lhs rhs : List UInt8}
    (hl : Selects len p lhs) (hr : Selects len q rhs) :
    ∃ ret, bitmapOr n sched lhs rhs = .ok ret ∧ Selects len (fun i => p i || q i) ret :=
  bitmapCombine_ok hn sched (fun a b _ hk => testBit_or a b hk) hl hr

/-- What a kernel does at byte `k`: it adds the bits of the rows of that byte. -/
def kernelUpdates (len : Nat) (p : Nat → Bool) (k : Nat) : List (UInt8 → UInt8) :=
  (List.range (min 8 (len - k * 8))).map fun j => (· ||| bitOfBool (p (k * 8 + j)) j)

theorem kernel_ok {task : Nat → Nat → Except EvalFault (List ByteWrite)} {len : Nat}
    {p : Nat → Bool}
    (htask : ∀ first last, first < last → last ≤ (len + 7) / 8 →
      task first last = .ok (byteSteps (kernelUpdates len p) first last)) :
    ∃ ret, FilterThreadPool.run n sched task ((len + 7) / 8) (List.replicate ((len + 7) / 8) 0) =
      .ok ret ∧ Selects len p ret := by
  refine ⟨_, FilterThreadPool.run_eq hn sched _ htask (by simp),
    selects_mapIdx (by simp) fun i hlt hi => ?_⟩
  have hbyte : i / 8 < (len + 7) / 8 := by omega
  have hin : i % 8 < min 8 (len - i / 8 * 8) := by omega
  rw [if_pos hbyte, kernelUpdates, testBit_foldl_or _ (min_le_left _ _) (Nat.mod_lt i (by decide)),
    List.getElem_replicate, testBit_zero, show i / 8 * 8 + i % 8 = i by omega]
  simp [hin]

end Pool

/-! ## Kernels -/

/-- The rows of some bytes, byte by byte. -/
theorem map_range_bytes {α : Type} (f : Nat → α) (len first k : Nat) :
    (List.range (min ((first + k) * 8) len - first * 8)).map (fun i => f (first * 8 + i)) =
      (List.range' first k).flatMap fun b =>
        (List.range (min 8 (len - b * 8))).map fun j => f (b * 8 + j) := by
  induction k generalizing first with
  | zero =>
    have hzero : min ((first + 0) * 8) len - first * 8 = 0 := by omega
    rw [hzero]
    rfl
  | succ k ih =>
    have hlen : min ((first + (k + 1)) * 8) len - first * 8 =
        min 8 (len - first * 8) + (min ((first + 1 + k) * 8) len - (first + 1) * 8) := by
      omega
    have htail : ∀ i ∈ List.range (min ((first + 1 + k) * 8) len - (first + 1) * 8),
        f (first * 8 + (min 8 (len - first * 8) + i)) = f ((first + 1) * 8 + i) := fun i hi => by
      rw [List.mem_range] at hi
      congr 1
      omega
    rw [List.range'_succ, List.flatMap_cons, ← ih, hlen, List.range_add, List.map_append,
      List.map_map]
    exact congrArg _ (List.map_congr_left htail)

theorem takeWhile_range' (s m c : Nat) :
    (List.range' s m).takeWhile (fun i => decide (i < c)) = List.range' s (min m (c - s)) := by
  induction m generalizing s with
  | zero => simp
  | succ m ih =>
    rw [List.range'_succ, List.takeWhile_cons]
    by_cases h : s < c
    · rw [if_pos (by simpa using h), ih,
        show min (m + 1) (c - s) = min m (c - (s + 1)) + 1 by omega,
        List.range'_succ]
    · rw [if_neg (by simpa using h), show c - s = 0 by omega]
      simp

/-- The rows of a byte, up to the end of the column. -/
theorem takeWhile_row (b row : Nat) :
    (List.range 8).takeWhile (fun bit => decide (b * 8 + bit < row)) =
      List.range (min 8 (row - b * 8)) := by
  have hlt : (fun bit => decide (b * 8 + bit < row)) = fun bit => decide (bit < row - b * 8) := by
    funext bit
    exact decide_eq_decide.mpr (by omega)
  rw [hlt, List.range_eq_range', takeWhile_range', List.range_eq_range', Nat.sub_zero]

/-! ## Columns -/

/-- The value of a row, if there is one and it is not NULL. -/
def valueAt {α : Type} (rows : List (Option α)) (i : Nat) : Option α := rows[i]?.join

theorem Selects.pushBack {len : Nat} {p : Nat → Bool} {bitmap : List UInt8}
    (h : Selects len p bitmap) {grow : Bool} (hgrow : grow = decide (len / 8 + 1 > bitmap.length))
    (notNull : Bool) :
    Selects (len + 1) (fun i => if i = len then notNull else p i)
      (bitmapPushBack bitmap grow len notNull) := by
  have hsize := h.size
  unfold bitmapPushBack
  cases grow with
  | true =>
    have hfull : bitmap.length = len / 8 ∧ len % 8 = 0 := by
      have := of_decide_eq_true hgrow.symm
      omega
    rw [if_pos rfl]
    refine ⟨by rw [List.length_append, List.length_singleton]; omega, fun i hi => ?_⟩
    unfold bitOf
    rw [bitAt]
    by_cases hlast : i = len
    · rw [if_pos hlast, hlast, ← hfull.1, hfull.2]
      cases notNull <;> simp <;> decide
    · have hlt : i / 8 < bitmap.length := by omega
      rw [if_neg hlast, ← h.bit i (by omega), bitOf, bitAt, List.getD_eq_getElem?_getD,
        List.getElem?_append_left hlt, ← List.getD_eq_getElem?_getD]
  | false =>
    have hroom : len / 8 < bitmap.length := by
      have := of_decide_eq_false hgrow.symm
      omega
    rw [if_neg Bool.false_ne_true]
    refine ⟨by rw [List.length_modify]; omega, fun i hi => ?_⟩
    have hold : i ≠ len → bitOf bitmap i = p i := fun hne => h.bit i (by omega)
    unfold bitOf at hold ⊢
    cases notNull with
    | true =>
      rw [if_pos rfl, bitAt_setBit i fun k => getD_modify bitmap _ hroom k]
      by_cases hlast : i = len
      · simp [hlast]
      · rw [if_neg hlast, hold hlast]
        simp [hlast]
    | false =>
      rw [if_neg Bool.false_ne_true, bitAt_clearBit i fun k => getD_modify bitmap _ hroom k]
      by_cases hlast : i = len
      · simp [hlast]
      · rw [if_neg hlast, hold hlast]
        simp [hlast]

/-- The bits of the rows after one more call. -/
theorem Selects.push {α : Type} {rows : List (Option α)} {bitmap : List UInt8}
    (h : Selects rows.length (fun i => (valueAt rows i).isSome) bitmap) {grow : Bool}
    (hgrow : grow = decide (rows.length / 8 + 1 > bitmap.length)) (row : Option α) :
    Selects (rows ++ [row]).length (fun i => (valueAt (rows ++ [row]) i).isSome)
      (bitmapPushBack bitmap grow rows.length row.isSome) := by
  rw [List.length_append, List.length_singleton]
  apply (h.pushBack hgrow row.isSome).congr
  intro i hi
  by_cases hlast : i = rows.length
  · simp [valueAt, hlast]
  · simp [valueAt, hlast, List.getElem?_append_left (show i < rows.length by omega)]

/-- The column has the given rows. -/
structure InnerColumn.Holds {T : Type} [Inhabited T] (rows : List (Option T))
    (c : InnerColumn T) : Prop where
  data : c.data = rows.map (·.getD default)
  bitmap : Selects rows.length (fun i => (valueAt rows i).isSome) c.bitmap

namespace InnerColumn.Holds

variable {T : Type} [Inhabited T] {rows : List (Option T)} {c : InnerColumn T}

theorem empty : Holds ([] : List (Option T)) {} :=
  ⟨rfl, by simp, fun _ hi => absurd hi (by simp)⟩

theorem push (h : Holds rows c) (row : Option T) : Holds (rows ++ [row]) (c.push row) := by
  have hlen : c.data.length = rows.length := by rw [h.data, List.length_map]
  have hdata : (c.push row).data = c.data ++ [row.getD default] := by
    cases row <;> rfl
  have hbitmap : (c.push row).bitmap =
      bitmapPushBack c.bitmap ((rows.length + 1 + 7) / 8 > c.bitmap.length) rows.length
        row.isSome := by
    cases row <;> simp [InnerColumn.push, pushBit, hlen]
  refine ⟨by rw [hdata, h.data, List.map_append]; rfl, ?_⟩
  rw [hbitmap]
  refine h.bitmap.push (decide_eq_decide.mpr ?_) row
  omega

theorem foldl (calls : List (Option T)) (h : Holds rows c) :
    Holds (rows ++ calls) (calls.foldl InnerColumn.push c) := by
  induction calls generalizing rows c with
  | nil => simpa using h
  | cons row calls ih => simpa using ih (h.push row)

theorem get (h : Holds rows c) {i : Nat} (hi : i < rows.length) :
    c.get i = .ok ((valueAt rows i).getD default) := by
  simp [InnerColumn.get, h.data, valueAt, hi]

end InnerColumn.Holds

/-- The strings of a column, empty where NULL. -/
def stringsOf (rows : List (Option (List UInt8))) : List (List UInt8) := rows.map (·.getD [])

/-- The column has the given rows. -/
structure InnerStringColumn.Holds (rows : List (Option (List UInt8))) (c : InnerStringColumn) :
    Prop where
  row : c.row = rows.length
  data : c.data = (stringsOf rows).flatten
  offsets : c.offsets =
    (List.range rows.length).map fun i => ((stringsOf rows).take (i + 1)).flatten.length
  bitmap : Selects rows.length (fun i => (valueAt rows i).isSome) c.bitmap

namespace InnerStringColumn.Holds

variable {rows : List (Option (List UInt8))} {c : InnerStringColumn}

theorem empty : Holds [] {} := ⟨rfl, rfl, rfl, by simp, fun _ hi => absurd hi (by simp)⟩

theorem push (h : Holds rows c) (row : Option (List UInt8)) :
    Holds (rows ++ [row]) (c.push row) := by
  have hdata : (c.push row).data = c.data ++ row.getD [] := by
    cases row <;> simp [InnerStringColumn.push, pushBit]
  have hoffsets : (c.push row).offsets = c.offsets ++ [(c.data ++ row.getD []).length] := by
    cases row <;> simp [InnerStringColumn.push, pushBit]
  have hbitmap : (c.push row).bitmap =
      bitmapPushBack c.bitmap (rows.length / 8 + 1 > c.bitmap.length) rows.length row.isSome := by
    cases row <;> simp [InnerStringColumn.push, pushBit, h.row]
  have hrow : (c.push row).row = rows.length + 1 := by
    cases row <;> simp [InnerStringColumn.push, pushBit, h.row]
  have hall : stringsOf (rows ++ [row]) = stringsOf rows ++ [row.getD []] := by
    unfold stringsOf
    rw [List.map_append]
    rfl
  refine ⟨by simp [hrow], by simp [hdata, h.data, hall], ?_, ?_⟩
  · have hold : ∀ i ∈ List.range rows.length,
        ((stringsOf rows).take (i + 1)).flatten.length =
          ((stringsOf rows ++ [row.getD []]).take (i + 1)).flatten.length := fun i hi => by
      rw [List.take_append_of_le_length]
      have := List.mem_range.mp hi
      simpa [stringsOf] using this
    have hlen : (rows ++ [row]).length = rows.length + 1 := by simp
    rw [hoffsets, h.offsets, h.data, hall, hlen, List.range_succ, List.map_append,
      List.map_congr_left hold]
    simp [stringsOf, List.take_of_length_le]
  · rw [hbitmap]
    exact h.bitmap.push rfl row

theorem foldl (calls : List (Option (List UInt8))) (h : Holds rows c) :
    Holds (rows ++ calls) (calls.foldl InnerStringColumn.push c) := by
  induction calls generalizing rows c with
  | nil => simpa using h
  | cons row calls ih => simpa using ih (h.push row)

theorem get (h : Holds rows c) {i : Nat} (hi : i < rows.length) :
    c.get i = .ok ((valueAt rows i).getD []) := by
  have hi' : i < (stringsOf rows).length := by simpa [stringsOf] using hi
  have hfirst : (if i = 0 then some 0 else c.offsets[i - 1]?) =
      some ((stringsOf rows).take i).flatten.length := by
    cases i with
    | zero => simp
    | succ i => simp [h.offsets, Nat.lt_of_succ_lt hi]
  have hlast : c.offsets[i]? =
      some (((stringsOf rows).take i).flatten.length +
        (stringsOf rows)[i].length) := by
    rw [← length_flatten_take_succ _ hi', h.offsets]
    simp [hi]
  have hdata := flatten_eq_around _ hi'
  rw [← h.data] at hdata
  have hlen := congrArg List.length hdata
  rw [List.length_append, List.length_append] at hlen
  unfold InnerStringColumn.get
  rw [hfirst, hlast]
  simp only
  rw [if_pos (by omega), hdata, List.drop_left, Nat.add_sub_cancel_left, List.take_left]
  simp [stringsOf, valueAt, hi]

end InnerStringColumn.Holds

/-! ## The kernels on columns -/

theorem mk_kernelUpdates (len : Nat) (p : Nat → Bool) (b : Nat) :
    (kernelUpdates len p b).map (ByteWrite.mk b) =
      (List.range (min 8 (len - b * 8))).map fun j =>
        ⟨(b * 8 + j) / 8, (· ||| bitOfBool (p (b * 8 + j)) ((b * 8 + j) % 8))⟩ := by
  unfold kernelUpdates
  rw [List.map_map]
  apply List.map_congr_left
  intro j hj
  have := List.mem_range.mp hj
  rw [show (b * 8 + j) / 8 = b by omega, show (b * 8 + j) % 8 = j by omega]
  rfl

theorem isSome_and_getD {α : Type} (o : Option α) (d : α) (cmp : α → Bool) :
    (o.isSome && cmp (o.getD d)) = o.any cmp := by
  cases o <;> rfl

namespace InnerColumn.Holds

variable {T : Type} [Inhabited T] {rows : List (Option T)} {c : InnerColumn T}

theorem kernelTask (h : Holds rows c) (cmp : T → Bool) (first last : Nat) (hlt : first < last) :
    c.kernelTask cmp first last =
      .ok (byteSteps (kernelUpdates rows.length fun i => (valueAt rows i).any cmp) first last) := by
  have hlen : c.data.length = rows.length := by rw [h.data, List.length_map]
  have hstep : ∀ i ∈ List.range (min (last * 8) c.data.length - first * 8),
      (do
        let bits ← byteAt c.bitmap (first + i / 8)
        let value ← c.get (first * 8 + i)
        .ok ⟨first + i / 8, (· ||| (bits &&& (1 <<< UInt8.ofNat (i % 8)) &&&
          bitOfBool (cmp value) (i % 8)))⟩ : Except EvalFault ByteWrite) =
        .ok ⟨(first * 8 + i) / 8,
          (· ||| bitOfBool ((valueAt rows (first * 8 + i)).any cmp) ((first * 8 + i) % 8))⟩ := by
    intro i hi
    have hrow : first * 8 + i < rows.length := by
      have := List.mem_range.mp hi
      omega
    obtain ⟨bits, hbits, hbit⟩ := h.bitmap.byteAt hrow
    rw [show (first * 8 + i) / 8 = first + i / 8 by omega] at hbits ⊢
    rw [show (first * 8 + i) % 8 = i % 8 by omega] at hbit ⊢
    rw [hbits, ok_bind, h.get hrow, ok_bind, and_bitOfBool _ _ (Nat.mod_lt i (by decide)), hbit,
      isSome_and_getD]
  obtain ⟨k, rfl⟩ : ∃ k, last = first + k := ⟨last - first, by omega⟩
  unfold InnerColumn.kernelTask
  rw [mapM_eq_map hstep, byteSteps, Nat.add_sub_cancel_left, hlen]
  apply congrArg Except.ok
  rw [map_range_bytes (fun r => (⟨r / 8, (· ||| bitOfBool ((valueAt rows r).any cmp) (r % 8))⟩ :
    ByteWrite))]
  simp only [mk_kernelUpdates]

theorem kernel {n : Nat} (hn : 0 < n) (sched : List Nat) (h : Holds rows c) (cmp : T → Bool) :
    ∃ ret, c.kernel n sched cmp = .ok ret ∧
      Selects rows.length (fun i => (valueAt rows i).any cmp) ret := by
  have hlen : c.data.length = rows.length := by rw [h.data, List.length_map]
  unfold InnerColumn.kernel
  rw [hlen, h.bitmap.size]
  exact kernel_ok hn sched fun first last hlt _ => h.kernelTask cmp first last hlt

end InnerColumn.Holds

namespace InnerStringColumn.Holds

variable {rows : List (Option (List UInt8))} {c : InnerStringColumn}

theorem kernelTask (h : Holds rows c) (cmp : List UInt8 → Bool) (first last : Nat) :
    c.kernelTask cmp first last =
      .ok (byteSteps (kernelUpdates rows.length fun i => (valueAt rows i).any cmp) first last) := by
  have hbyte : ∀ b ∈ List.range' first (last - first),
      ((List.range 8).takeWhile fun bitIdx => b * 8 + bitIdx < c.row).mapM (fun bitIdx => do
        let bits ← byteAt c.bitmap b
        let value ← c.get (b * 8 + bitIdx)
        .ok ⟨b, (· ||| bitOfBool (testBit bits bitIdx && cmp value) bitIdx)⟩ :
          Nat → Except EvalFault ByteWrite) =
        .ok ((kernelUpdates rows.length (fun i => (valueAt rows i).any cmp) b).map
          (ByteWrite.mk b)) := by
    intro b _
    rw [h.row, takeWhile_row, kernelUpdates, List.map_map]
    apply mapM_eq_map
    intro j hj
    have hrow : b * 8 + j < rows.length := by
      have := List.mem_range.mp hj
      omega
    obtain ⟨bits, hbits, hbit⟩ := h.bitmap.byteAt hrow
    have hj8 : j < 8 := by
      have := List.mem_range.mp hj
      omega
    rw [show (b * 8 + j) / 8 = b by omega] at hbits
    rw [show (b * 8 + j) % 8 = j by omega] at hbit
    rw [hbits, ok_bind, h.get hrow, ok_bind, hbit, isSome_and_getD]
    rfl
  unfold InnerStringColumn.kernelTask
  rw [mapM_eq_map hbyte, ok_bind, byteSteps, List.flatMap_def]

theorem kernel {n : Nat} (hn : 0 < n) (sched : List Nat) (h : Holds rows c)
    (cmp : List UInt8 → Bool) :
    ∃ ret, c.kernel n sched cmp = .ok ret ∧
      Selects rows.length (fun i => (valueAt rows i).any cmp) ret := by
  unfold InnerStringColumn.kernel
  rw [h.row, h.bitmap.size]
  exact kernel_ok hn sched fun first last _ _ => h.kernelTask cmp first last

end InnerStringColumn.Holds

end HashJoin
