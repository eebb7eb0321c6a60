import Mathlib.Tactic

/-!
# Blocks of bytes

Little-endian numbers, values stored as a fixed number of bytes, blocks of `n` bytes with copies
into them and reads out of them, and bits packed eight to a byte. A read outside a block gives
`0` and a write outside it is dropped.
-/

namespace HashJoin.Bytes

/-! ## Little-endian numbers -/

/-- The `k` low bytes of `v`, the least significant first. -/
def toLE : Nat → Nat → List UInt8
  | 0, _ => []
  | k + 1, v => UInt8.ofNat v :: toLE k (v / 256)

def ofLE : List UInt8 → Nat
  | [] => 0
  | b :: bs => b.toNat + 256 * ofLE bs

@[simp] theorem length_toLE (k v : Nat) : (toLE k v).length = k := by
  induction k generalizing v with
  | zero => rfl
  | succ k ih => simp [toLE, ih]

theorem ofLE_toLE (k v : Nat) : ofLE (toLE k v) = v % 256 ^ k := by
  induction k generalizing v with
  | zero => simp [toLE, ofLE, Nat.mod_one]
  | succ k ih =>
    unfold toLE
    rw [ofLE, ih, Nat.pow_succ', Nat.mod_mul]
    simp

/-! ## Values of fixed size -/

/-- A type whose values are stored as `size` bytes. -/
class Pod (T : Type) where
  size : Nat
  toBytes : T → List UInt8
  ofBytes : List UInt8 → T
  length_toBytes : ∀ v, (toBytes v).length = size
  ofBytes_toBytes : ∀ v, ofBytes (toBytes v) = v

attribute [simp] Pod.length_toBytes Pod.ofBytes_toBytes

instance : Pod UInt16 where
  size := 2
  toBytes v := toLE 2 v.toNat
  ofBytes l := UInt16.ofNat (ofLE l)
  length_toBytes _ := length_toLE _ _
  ofBytes_toBytes v := by
    rw [ofLE_toLE, Nat.mod_eq_of_lt (by simpa using v.toNat_lt)]
    exact UInt16.ofNat_toNat

instance : Pod UInt32 where
  size := 4
  toBytes v := toLE 4 v.toNat
  ofBytes l := UInt32.ofNat (ofLE l)
  length_toBytes _ := length_toLE _ _
  ofBytes_toBytes v := by
    rw [ofLE_toLE, Nat.mod_eq_of_lt (by simpa using v.toNat_lt)]
    exact UInt32.ofNat_toNat

instance : Pod UInt64 where
  size := 8
  toBytes v := toLE 8 v.toNat
  ofBytes l := UInt64.ofNat (ofLE l)
  length_toBytes _ := length_toLE _ _
  ofBytes_toBytes v := by
    rw [ofLE_toLE, Nat.mod_eq_of_lt (by simpa using v.toNat_lt)]
    exact UInt64.ofNat_toNat

instance : Pod Int32 where
  size := 4
  toBytes v := Pod.toBytes v.toUInt32
  ofBytes l := (Pod.ofBytes l : UInt32).toInt32
  length_toBytes _ := Pod.length_toBytes _
  ofBytes_toBytes v := by simp

instance : Pod Int64 where
  size := 8
  toBytes v := Pod.toBytes v.toUInt64
  ofBytes l := (Pod.ofBytes l : UInt64).toInt64
  length_toBytes _ := Pod.length_toBytes _
  ofBytes_toBytes v := by simp

/-- The bytes of the `k`-th of several values. -/
theorem toBytes_at {T : Type} [Pod T] (vs : List T) (k : Nat) (h : k < vs.length) :
    ((vs.flatMap Pod.toBytes).drop (Pod.size T * k)).take (Pod.size T) = Pod.toBytes vs[k] := by
  induction vs generalizing k with
  | nil => simp at h
  | cons v vs ih =>
    rw [List.flatMap_cons]
    cases k with
    | zero => simp
    | succ k =>
      have hsplit : Pod.size T * (k + 1) = (Pod.toBytes v).length + Pod.size T * k := by
        rw [Pod.length_toBytes]
        ring
      rw [hsplit, ← List.drop_drop, List.drop_left]
      exact ih k (by simpa using h)

theorem length_flatMap_toBytes {T : Type} [Pod T] (vs : List T) :
    (vs.flatMap Pod.toBytes).length = Pod.size T * vs.length := by
  induction vs with
  | nil => simp
  | cons v vs ih =>
    rw [List.flatMap_cons, List.length_append, ih, Pod.length_toBytes, List.length_cons]
    ring

/-! ## Blocks -/

/-- A block of `n` bytes. -/
structure Buf (n : Nat) where
  get : Fin n → UInt8

namespace Buf

variable {n : Nat}

def byte (b : Buf n) (i : Nat) : UInt8 :=
  if h : i < n then b.get ⟨i, h⟩ else 0

/-- Copies `src` to the place `off`. -/
def memcpy (b : Buf n) (off : Nat) (src : List UInt8) : Buf n :=
  ⟨fun i => if off ≤ i ∧ i < off + src.length then src.getD (i - off) 0 else b.get i⟩

/-- The `len` bytes from `off` on. -/
def slice (b : Buf n) (off len : Nat) : List UInt8 :=
  (List.range len).map fun k => b.byte (off + k)

def modify (b : Buf n) (i : Nat) (f : UInt8 → UInt8) : Buf n :=
  ⟨fun j => if j = i then f (b.get j) else b.get j⟩

/-- A block of zeros. -/
def zero (n : Nat) : Buf n := ⟨fun _ => 0⟩

theorem byte_memcpy_inside (b : Buf n) {off i : Nat} {src : List UInt8} (hlo : off ≤ i)
    (hhi : i - off < src.length) (hn : i < n) : (b.memcpy off src).byte i = src[i - off] := by
  have : i < off + src.length := by omega
  simp [byte, memcpy, hn, hlo, this, hhi]

theorem byte_memcpy_outside (b : Buf n) {off i : Nat} {src : List UInt8}
    (h : i < off ∨ off + src.length ≤ i) : (b.memcpy off src).byte i = b.byte i := by
  have : ¬ (off ≤ i ∧ i < off + src.length) := by omega
  simp only [byte, memcpy, this, if_false]

theorem byte_modify (b : Buf n) {i j : Nat} (f : UInt8 → UInt8) (h : i < n) :
    (b.modify i f).byte j = if j = i then f (b.byte j) else b.byte j := by
  unfold byte modify
  by_cases hj : j = i
  · subst hj
    simp [h]
  · simp [hj]

@[simp] theorem length_slice (b : Buf n) (off len : Nat) : (b.slice off len).length = len := by
  simp [slice]

@[simp] theorem getElem_slice (b : Buf n) (off len k : Nat) (h : k < (b.slice off len).length) :
    (b.slice off len)[k] = b.byte (off + k) := by
  simp [slice]

theorem slice_add (b : Buf n) (off m k : Nat) :
    b.slice off (m + k) = b.slice off m ++ b.slice (off + m) k := by
  simp [slice, List.range_add, Nat.add_assoc]

theorem slice_congr {b b' : Buf n} {off len : Nat}
    (h : ∀ i, off ≤ i → i < off + len → b.byte i = b'.byte i) :
    b.slice off len = b'.slice off len := by
  apply List.map_congr_left
  intro k hk
  have := List.mem_range.mp hk
  exact h _ (by omega) (by omega)

theorem slice_memcpy_inside (b : Buf n) {off : Nat} (k len : Nat) {src : List UInt8}
    (h : k + len ≤ src.length) (hn : off + src.length ≤ n) :
    (b.memcpy off src).slice (off + k) len = (src.drop k).take len := by
  apply List.ext_getElem (by simp; omega)
  intro j hj hj'
  simp only [length_slice] at hj
  rw [getElem_slice, byte_memcpy_inside b (by omega) (by omega) (by omega), List.getElem_take,
    List.getElem_drop]
  congr 1
  omega

theorem slice_memcpy_same (b : Buf n) {off : Nat} {src : List UInt8}
    (hn : off + src.length ≤ n) : (b.memcpy off src).slice off src.length = src := by
  have h := slice_memcpy_inside b 0 src.length (by omega) hn
  simpa using h

theorem slice_memcpy_outside (b : Buf n) {off off' len : Nat} {src : List UInt8}
    (h : off' + len ≤ off ∨ off + src.length ≤ off') :
    (b.memcpy off src).slice off' len = b.slice off' len :=
  slice_congr fun i _ _ => byte_memcpy_outside b (by omega)

/-- A copy of all bytes of another block. -/
theorem memcpy_slice_all (b b' : Buf n) : b.memcpy 0 (b'.slice 0 n) = b' := by
  obtain ⟨get⟩ := b'
  refine congrArg Buf.mk (funext fun i => ?_)
  have hi : (i : Nat) < ((Buf.mk get).slice 0 n).length := by
    rw [length_slice]
    exact i.isLt
  rw [if_pos ⟨Nat.zero_le _, by omega⟩, List.getD_eq_getElem?_getD, Nat.sub_zero,
    List.getElem?_eq_getElem hi, Option.getD_some, getElem_slice, Nat.zero_add, byte,
    dif_pos i.isLt]

/-! ## Values in a block -/

variable {T : Type} [Pod T]

def read (T : Type) [Pod T] (b : Buf n) (off : Nat) : T := Pod.ofBytes (b.slice off (Pod.size T))

def write (b : Buf n) (off : Nat) (v : T) : Buf n := b.memcpy off (Pod.toBytes v)

theorem slice_write_same (b : Buf n) {off : Nat} (v : T) (h : off + Pod.size T ≤ n) :
    (b.write off v).slice off (Pod.size T) = Pod.toBytes v := by
  have hs : (b.memcpy off (Pod.toBytes v)).slice off (Pod.toBytes v).length = Pod.toBytes v :=
    slice_memcpy_same b (by simpa using h)
  rwa [Pod.length_toBytes] at hs

theorem read_write_same (b : Buf n) {off : Nat} (v : T) (h : off + Pod.size T ≤ n) :
    (b.write off v).read T off = v := by
  unfold read
  rw [slice_write_same b v h, Pod.ofBytes_toBytes]

theorem read_memcpy_outside (b : Buf n) {off off' : Nat} {src : List UInt8}
    (h : off' + Pod.size T ≤ off ∨ off + src.length ≤ off') :
    (b.memcpy off src).read T off' = b.read T off' := by
  rw [read, slice_memcpy_outside b h, read]

theorem read_write_outside {S : Type} [Pod S] (b : Buf n) {off off' : Nat} (v : S)
    (h : off' + Pod.size T ≤ off ∨ off + Pod.size S ≤ off') :
    (b.write off v).read T off' = b.read T off' :=
  read_memcpy_outside b (by simpa using h)

/-- Reading back one of several values copied at once. -/
theorem read_memcpy_flatMap (b : Buf n) {off k : Nat} {vs : List T} (hk : k < vs.length)
    (h : off + Pod.size T * vs.length ≤ n) :
    (b.memcpy off (vs.flatMap Pod.toBytes)).read T (off + Pod.size T * k) = vs[k] := by
  have hfit : Pod.size T * k + Pod.size T ≤ Pod.size T * vs.length := by
    rw [← Nat.mul_succ]
    exact Nat.mul_le_mul_left _ hk
  unfold read
  rw [slice_memcpy_inside b _ _ (by rwa [length_flatMap_toBytes])
    (by rwa [length_flatMap_toBytes]), toBytes_at vs k hk, Pod.ofBytes_toBytes]

/-- A 16-bit count. -/
def u16 (b : Buf n) (off : Nat) : Nat := (b.read UInt16 off).toNat

/-- Stores a count in 16 bits. -/
def setU16 (b : Buf n) (off v : Nat) : Buf n := b.write off (UInt16.ofNat v)

theorem u16_setU16_same (b : Buf n) {off v : Nat} (h : off + 2 ≤ n) :
    (b.setU16 off v).u16 off = v % 65536 := by
  unfold u16
  rw [setU16, read_write_same b _ h]
  exact UInt16.toNat_ofNat'

theorem u16_setU16_outside (b : Buf n) {off off' v : Nat} (h : off' + 2 ≤ off ∨ off + 2 ≤ off') :
    (b.setU16 off v).u16 off' = b.u16 off' := by
  rw [u16, setU16, read_write_outside b _ h, u16]

theorem u16_memcpy_outside (b : Buf n) {off off' : Nat} {src : List UInt8}
    (h : off' + 2 ≤ off ∨ off + src.length ≤ off') : (b.memcpy off src).u16 off' = b.u16 off' := by
  rw [u16, read_memcpy_outside b h, u16]

end Buf

/-! ## Blocks and values in a list of bytes -/

instance {n : Nat} : Pod (Buf n) where
  size := n
  toBytes b := b.slice 0 n
  ofBytes l := ⟨fun i => l.getD i 0⟩
  length_toBytes b := b.length_slice 0 n
  ofBytes_toBytes b := by
    congr 1
    funext i
    simp [Buf.slice, Buf.byte]

/-- The value that the bytes from `off` on stand for. -/
def readAt (T : Type) [Pod T] (bytes : List UInt8) (off : Nat) : T :=
  Pod.ofBytes ((bytes.drop off).take (Pod.size T))

/-- The `k`-th of several values with other bytes around them. -/
theorem readAt_eq {T : Type} [Pod T] {bytes pre post : List UInt8} {vs : List T} {k off : Nat}
    (h : bytes = pre ++ (vs.flatMap Pod.toBytes ++ post)) (hk : k < vs.length)
    (hoff : off = pre.length + Pod.size T * k) : readAt T bytes off = vs[k] := by
  have hfit : Pod.size T * k + Pod.size T ≤ (vs.flatMap Pod.toBytes).length := by
    rw [length_flatMap_toBytes, ← Nat.mul_succ]
    exact Nat.mul_le_mul_left _ hk
  unfold readAt
  rw [h, hoff, ← List.drop_drop, List.drop_left, List.drop_append_of_le_length (by omega),
    List.take_append_of_le_length (by rw [List.length_drop]; omega), toBytes_at vs k hk,
    Pod.ofBytes_toBytes]

/-- Bytes behind the value do not matter. -/
theorem readAt_take {T : Type} [Pod T] (bytes : List UInt8) {off n : Nat}
    (h : off + Pod.size T ≤ n) : readAt T (bytes.take n) off = readAt T bytes off := by
  rw [readAt, readAt, List.drop_take, List.take_take, Nat.min_eq_left (by omega)]

/-! ## Bits -/

def testBit (b : UInt8) (k : Nat) : Bool := b &&& (1 <<< UInt8.ofNat k) != 0

def setBit (k : Nat) (b : UInt8) : UInt8 := b ||| (1 <<< UInt8.ofNat k)

def clearBit (k : Nat) (b : UInt8) : UInt8 := b &&& ~~~(1 <<< UInt8.ofNat k)

theorem toBitVec_one_shiftLeft {k : Nat} (hk : k < 8) :
    ((1 : UInt8) <<< UInt8.ofNat k).toBitVec = BitVec.twoPow 8 k := by
  interval_cases k <;> rfl

theorem testBit_eq (b : UInt8) {k : Nat} (hk : k < 8) : testBit b k = b.toBitVec.getLsbD k := by
  have hz : b &&& (1 <<< UInt8.ofNat k) = 0 ↔ b.toBitVec &&& BitVec.twoPow 8 k = 0 := by
    rw [← UInt8.toBitVec_inj, UInt8.toBitVec_and, toBitVec_one_shiftLeft hk]
    rfl
  unfold testBit
  rw [Bool.eq_iff_iff, bne_iff_ne, ne_eq, hz, BitVec.and_twoPow]
  split
  · next h =>
    have hne : BitVec.twoPow 8 k ≠ 0#8 := fun he => by
      simpa [hk] using congrArg (fun v => v.getLsbD k) he
    simpa [h] using hne
  · next h => simpa using h

theorem testBit_setBit (b : UInt8) {j k : Nat} (hj : j < 8) (hk : k < 8) :
    testBit (setBit k b) j = (decide (j = k) || testBit b j) := by
  rw [testBit_eq _ hj, testBit_eq _ hj, setBit, UInt8.toBitVec_or, toBitVec_one_shiftLeft hk,
    BitVec.getLsbD_or, BitVec.getLsbD_twoPow, Bool.or_comm]
  simp [hk, eq_comm]

theorem testBit_clearBit (b : UInt8) {j k : Nat} (hj : j < 8) (hk : k < 8) :
    testBit (clearBit k b) j = (decide (j ≠ k) && testBit b j) := by
  rw [testBit_eq _ hj, testBit_eq _ hj, clearBit, UInt8.toBitVec_and, UInt8.toBitVec_not,
    toBitVec_one_shiftLeft hk, BitVec.getLsbD_and, BitVec.getLsbD_not, BitVec.getLsbD_twoPow,
    Bool.and_comm]
  simp [hj, hk, eq_comm]

theorem testBit_and (a b : UInt8) {k : Nat} (hk : k < 8) :
    testBit (a &&& b) k = (testBit a k && testBit b k) := by
  simp [testBit_eq _ hk]

theorem testBit_or (a b : UInt8) {k : Nat} (hk : k < 8) :
    testBit (a ||| b) k = (testBit a k || testBit b k) := by
  simp [testBit_eq _ hk]

theorem testBit_not (a : UInt8) {k : Nat} (hk : k < 8) : testBit (~~~a) k = !testBit a k := by
  simp [testBit_eq _ hk, hk]

theorem testBit_zero (k : Nat) : testBit 0 k = false := by
  simp [testBit]

/-- Bit `i` of the bytes `f`, eight to a byte. -/
def bitAt (f : Nat → UInt8) (i : Nat) : Bool := testBit (f (i / 8)) (i % 8)

theorem bitAt_congr {f g : Nat → UInt8} {i : Nat} (h : f (i / 8) = g (i / 8)) :
    bitAt f i = bitAt g i := by
  rw [bitAt, bitAt, h]

theorem bitAt_setBit {f g : Nat → UInt8} {i : Nat} (j : Nat)
    (h : ∀ k, g k = if k = i / 8 then setBit (i % 8) (f k) else f k) :
    bitAt g j = (decide (j = i) || bitAt f j) := by
  have hij : j = i ↔ j / 8 = i / 8 ∧ j % 8 = i % 8 := by omega
  rw [bitAt, bitAt, h]
  split
  · next hq =>
    rw [testBit_setBit _ (by omega) (by omega)]
    simp [hij, hq]
  · next hq => simp [hij, hq]

theorem bitAt_clearBit {f g : Nat → UInt8} {i : Nat} (j : Nat)
    (h : ∀ k, g k = if k = i / 8 then clearBit (i % 8) (f k) else f k) :
    bitAt g j = (decide (j ≠ i) && bitAt f j) := by
  have hij : j = i ↔ j / 8 = i / 8 ∧ j % 8 = i % 8 := by omega
  rw [bitAt, bitAt, h]
  split
  · next hq =>
    rw [testBit_clearBit _ (by omega) (by omega)]
    simp [hij, hq]
  · next hq => simp [hij, hq]

/-! ## Bits of a list of bytes -/

/-- Bit `i` of a list of bytes. -/
def bitOf (l : List UInt8) (i : Nat) : Bool := bitAt (fun k => l.getD k 0) i

theorem getD_append_zeros (l : List UInt8) (n k : Nat) :
    (l ++ List.replicate n 0).getD k 0 = l.getD k 0 := by
  simp only [List.getD_eq_getElem?_getD, List.getElem?_append, List.getElem?_replicate]
  split
  · rfl
  · next h =>
    rw [List.getElem?_eq_none (by omega)]
    split <;> rfl

theorem getD_modify (l : List UInt8) {i : Nat} (f : UInt8 → UInt8) (h : i < l.length) (k : Nat) :
    (l.modify i f).getD k 0 = if k = i then f (l.getD k 0) else l.getD k 0 := by
  simp only [List.getD_eq_getElem?_getD, List.getElem?_modify]
  by_cases hk : k = i
  · subst hk
    simp [h]
  · simp [hk, Ne.symm hk]

theorem bitOf_slice {n : Nat} (b : Buf n) {off len i : Nat} (h : i / 8 < len) :
    bitOf (b.slice off len) i = bitAt (fun k => b.byte (off + k)) i := by
  apply bitAt_congr
  rw [List.getD_eq_getElem?_getD, List.getElem?_eq_getElem (by simpa using h), Option.getD_some,
    Buf.getElem_slice]

end HashJoin.Bytes
