import Mathlib.Tactic

/-!
# Words of a pointer and a tag

A 64-bit word with a 48-bit pointer over a 16-bit tag, and what arithmetic on the word does to the
two.
-/

namespace HashJoin.TaggedWord

/-- The word of a pointer and a tag. -/
def pack (ptr : Nat) (tag : UInt16) : UInt64 := UInt64.ofNat (ptr * 65536 + tag.toNat)

theorem toNat_pack {ptr : Nat} (h : ptr < 2 ^ 48) (tag : UInt16) :
    (pack ptr tag).toNat = ptr * 65536 + tag.toNat := by
  have := tag.toNat_lt
  unfold pack
  rw [UInt64.toNat_ofNat', Nat.mod_eq_of_lt (by omega)]

theorem pack_zero : pack 0 0 = 0 := rfl

/-- Adding to the pointer part. -/
theorem pack_add (ptr : Nat) (tag : UInt16) :
    pack ptr tag + (8 : UInt64) <<< 16 = pack (ptr + 8) tag := by
  have h8 : (8 : UInt64) <<< 16 = UInt64.ofNat 524288 := rfl
  have hsum : ptr * 65536 + tag.toNat + 524288 = (ptr + 8) * 65536 + tag.toNat := by omega
  rw [pack, pack, h8, ← UInt64.ofNat_add, hsum]

theorem or_add (ptr : Nat) {a b : Nat} (ha : a < 65536) (hb : b < 65536) :
    (ptr * 65536 + a) ||| b = ptr * 65536 + (a ||| b) := by
  have hab : a ||| b < 2 ^ 16 := Nat.or_lt_two_pow ha hb
  have hshift : ∀ c < 2 ^ 16, ptr * 65536 + c = ptr <<< 16 ||| c := fun c hc => by
    rw [← Nat.shiftLeft_add_eq_or_of_lt hc, Nat.shiftLeft_eq]
  rw [hshift a ha, hshift _ hab, Nat.or_assoc]

/-- Setting bits of the tag. -/
theorem pack_or {ptr : Nat} (h : ptr < 2 ^ 48) (tag bits : UInt16) :
    pack ptr tag ||| bits.toUInt64 = pack ptr (tag ||| bits) := by
  apply UInt64.toNat_inj.mp
  rw [UInt64.toNat_or, toNat_pack h, toNat_pack h, UInt16.toNat_toUInt64, UInt16.toNat_or]
  exact or_add ptr tag.toNat_lt bits.toNat_lt

theorem pack_shiftRight {ptr : Nat} (h : ptr < 2 ^ 48) (tag : UInt16) :
    pack ptr tag >>> 16 = UInt64.ofNat ptr := by
  have := tag.toNat_lt
  apply UInt64.toNat_inj.mp
  rw [UInt64.toNat_shiftRight, toNat_pack h, UInt64.toNat_ofNat']
  simp only [UInt64.toNat_ofNat, Nat.reducePow, Nat.reduceMod, Nat.shiftRight_eq_div_pow]
  omega

theorem pack_toUInt16 {ptr : Nat} (h : ptr < 2 ^ 48) (tag : UInt16) :
    (pack ptr tag).toUInt16 = tag := by
  have := tag.toNat_lt
  apply UInt16.toNat_inj.mp
  rw [UInt64.toNat_toUInt16, toNat_pack h]
  omega

/-- Replacing the pointer. -/
theorem shiftLeft_or {ptr : Nat} (h : ptr < 2 ^ 48) (tag : UInt16) :
    UInt64.ofNat ptr <<< 16 ||| tag.toUInt64 = pack ptr tag := by
  have := tag.toNat_lt
  apply UInt64.toNat_inj.mp
  have hor := or_add ptr (Nat.zero_lt_succ 65535) this
  rw [Nat.add_zero, Nat.zero_or] at hor
  have hmod : ptr % 18446744073709551616 * 65536 % 18446744073709551616 = ptr * 65536 := by omega
  rw [UInt64.toNat_or, toNat_pack h, UInt16.toNat_toUInt64, UInt64.toNat_shiftLeft,
    UInt64.toNat_ofNat']
  simp only [UInt64.toNat_ofNat, Nat.reducePow, Nat.reduceMod, Nat.shiftLeft_eq, hmod, hor]

end HashJoin.TaggedWord
