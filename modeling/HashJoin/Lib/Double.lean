import Mathlib.Data.Rat.Cast.Order
import Mathlib.Order.WithBot
import Mathlib.Tactic

/-!
# Doubles

The values of IEEE 754 binary64: what 64 bits stand for, the double nearest to an integer, and the
comparisons, of which NaN satisfies none.
-/

namespace HashJoin

/-- A number, with the two infinities at the ends, or NaN. Both zeros are the number 0. -/
inductive Double where
  | nan
  | num (x : WithBot (WithTop ℚ))
  deriving DecidableEq

namespace Double

def finite (q : ℚ) : Double := num ((q : WithTop ℚ) : WithBot (WithTop ℚ))

def ofBits (bits : UInt64) : Double :=
  let fraction : Nat := bits.toNat % 2 ^ 52
  let exponent : Nat := bits.toNat / 2 ^ 52 % 2 ^ 11
  if exponent = 2047 then
    if fraction ≠ 0 then nan else if 2 ^ 63 ≤ bits.toNat then num ⊥ else num ((⊤ : WithTop ℚ))
  else
    let magnitude : ℚ :=
      if exponent = 0 then fraction / 2 ^ 1074
      else ((2 ^ 52 + fraction : Nat) : ℚ) * 2 ^ exponent / 2 ^ 1075
    finite (if 2 ^ 63 ≤ bits.toNat then -magnitude else magnitude)

/-- `m` to 53 significant bits: to the nearest, and half way to the even one. -/
def round (m : Nat) : Nat :=
  let e := Nat.log2 m - 52
  let q := m / 2 ^ e
  let r := m % 2 ^ e
  (if 2 * r < 2 ^ e ∨ 2 * r = 2 ^ e ∧ q % 2 = 0 then q else q + 1) * 2 ^ e

/-- The conversion of an integer. -/
def ofInt (v : Int) : Double := finite ((v.sign * round v.natAbs : Int) : ℚ)

def less : Double → Double → Bool
  | num x, num y => x < y
  | _, _ => false

def equal : Double → Double → Bool
  | num x, num y => x = y
  | _, _ => false

/-! ## Small integers -/

theorem round_of_lt {m : Nat} (h : m < 2 ^ 53) : round m = m := by
  have he : Nat.log2 m - 52 = 0 := by
    rcases Nat.eq_zero_or_pos m with rfl | hm
    · rfl
    · have := (Nat.log2_lt hm.ne').mpr h
      omega
  unfold round
  simp [he, Nat.mod_one]

theorem ofInt_of_lt {v : Int} (h : v.natAbs < 2 ^ 53) : ofInt v = finite v := by
  unfold ofInt
  rw [round_of_lt h, Int.sign_mul_natAbs]

@[simp] theorem less_finite (p q : ℚ) : less (finite p) (finite q) = decide (p < q) := by
  simp [less, finite]

@[simp] theorem equal_finite (p q : ℚ) : equal (finite p) (finite q) = decide (p = q) := by
  simp [equal, finite]

/-- Integers of 53 bits compare as doubles the way they compare as integers. -/
theorem less_ofInt {v w : Int} (hv : v.natAbs < 2 ^ 53) (hw : w.natAbs < 2 ^ 53) :
    less (ofInt v) (ofInt w) = decide (v < w) := by
  rw [ofInt_of_lt hv, ofInt_of_lt hw, less_finite]
  simp

theorem equal_ofInt {v w : Int} (hv : v.natAbs < 2 ^ 53) (hw : w.natAbs < 2 ^ 53) :
    equal (ofInt v) (ofInt w) = decide (v = w) := by
  rw [ofInt_of_lt hv, ofInt_of_lt hw, equal_finite]
  simp

/-! ## Small integers and others -/

/-- Rounding does not take a large number below 53 bits. -/
theorem le_round {m : Nat} (h : 2 ^ 53 ≤ m) : 2 ^ 53 ≤ round m := by
  have hm : m ≠ 0 := by omega
  have hlog : 53 ≤ Nat.log2 m := (Nat.le_log2 hm).mpr h
  obtain ⟨e, he⟩ : ∃ e, Nat.log2 m - 52 = e + 1 := ⟨Nat.log2 m - 53, by omega⟩
  have hself : 2 ^ (52 + (e + 1)) ≤ m := (Nat.le_log2 hm).mp (by omega)
  have hq : 2 ^ 52 ≤ m / 2 ^ (e + 1) := by
    rw [Nat.le_div_iff_mul_le (by positivity), ← pow_add]
    exact hself
  have hround : m / 2 ^ (e + 1) * 2 ^ (e + 1) ≤ round m := by
    unfold round
    simp only [he]
    exact Nat.mul_le_mul_right _ (by split <;> omega)
  calc 2 ^ 53 = 2 ^ 52 * 2 ^ 1 := by norm_num
    _ ≤ m / 2 ^ (e + 1) * 2 ^ (e + 1) :=
      Nat.mul_le_mul hq (Nat.pow_le_pow_right (by omega) (by omega))
    _ ≤ round m := hround

/-- An integer of 53 bits is on the same side of any integer and of its double. -/
theorem lt_round_iff {v : Int} (hv : v.natAbs < 2 ^ 53) (w : Int) :
    (v < w.sign * round w.natAbs ↔ v < w) ∧ (w.sign * round w.natAbs < v ↔ w < v) := by
  by_cases hw : w.natAbs < 2 ^ 53
  · rw [round_of_lt hw, Int.sign_mul_natAbs]
    exact ⟨Iff.rfl, Iff.rfl⟩
  · have hround := le_round (not_lt.mp hw)
    rcases lt_trichotomy w 0 with hneg | rfl | hpos
    · rw [Int.sign_eq_neg_one_of_neg hneg]
      omega
    · simp at hw
    · rw [Int.sign_eq_one_of_pos hpos]
      omega

/-- An integer of 53 bits compares with any other as a double the way it does as an integer. -/
theorem compare_ofInt {v : Int} (hv : v.natAbs < 2 ^ 53) (w : Int) :
    less (ofInt v) (ofInt w) = decide (v < w) ∧ less (ofInt w) (ofInt v) = decide (w < v) ∧
      equal (ofInt v) (ofInt w) = decide (v = w) := by
  obtain ⟨hlt, hgt⟩ := lt_round_iff hv w
  have heq : v = w.sign * round w.natAbs ↔ v = w := by omega
  rw [ofInt_of_lt hv, ofInt, less_finite, less_finite, equal_finite]
  refine ⟨decide_eq_decide.mpr ?_, decide_eq_decide.mpr ?_, decide_eq_decide.mpr ?_⟩
  · exact Int.cast_lt.trans hlt
  · exact Int.cast_lt.trans hgt
  · exact Int.cast_inj.trans heq

/-! ## The order of rounded integers -/

/-- Rounding stays within the powers of two around a number. -/
theorem round_bounds {m : Nat} (h : 2 ^ 53 ≤ m) :
    2 ^ Nat.log2 m ≤ round m ∧ round m ≤ 2 ^ (Nat.log2 m + 1) := by
  have hm : m ≠ 0 := by omega
  have hlog : 53 ≤ Nat.log2 m := (Nat.le_log2 hm).mpr h
  obtain ⟨e, he⟩ : ∃ e, Nat.log2 m = e + 52 := ⟨Nat.log2 m - 52, by omega⟩
  have hlo : 2 ^ 52 ≤ m / 2 ^ e := by
    rw [Nat.le_div_iff_mul_le (by positivity), ← pow_add]
    exact (Nat.le_log2 hm).mp (by omega)
  have hhi : m / 2 ^ e < 2 ^ 53 := by
    rw [Nat.div_lt_iff_lt_mul (by positivity), ← pow_add]
    exact (Nat.log2_lt hm).mp (by omega)
  unfold round
  simp only [he, Nat.add_sub_cancel]
  constructor
  · rw [Nat.add_comm, pow_add]
    exact Nat.mul_le_mul_right _ (by split <;> omega)
  · rw [show e + 52 + 1 = 53 + e by omega, pow_add]
    exact Nat.mul_le_mul_right _ (by split <;> omega)

theorem round_mono {m n : Nat} (h : m ≤ n) : round m ≤ round n := by
  by_cases hn : n < 2 ^ 53
  · rwa [round_of_lt hn, round_of_lt (by omega)]
  by_cases hm : m < 2 ^ 53
  · rw [round_of_lt hm]
    exact hm.le.trans (le_round (by omega))
  have hlog : Nat.log2 m ≤ Nat.log2 n :=
    (Nat.le_log2 (by omega)).mpr ((Nat.log2_self_le (by omega)).trans h)
  rcases hlog.lt_or_eq with hlt | heq
  · -- There is a power of two between them.
    calc round m ≤ 2 ^ (Nat.log2 m + 1) := (round_bounds (by omega)).2
      _ ≤ 2 ^ Nat.log2 n := Nat.pow_le_pow_right (by omega) hlt
      _ ≤ round n := (round_bounds (by omega)).1
  · -- Both are rounded to multiples of the same power of two.
    unfold round
    simp only [heq]
    generalize 2 ^ (Nat.log2 n - 52) = u
    apply Nat.mul_le_mul_right _
    have hq : m / u ≤ n / u := Nat.div_le_div_right h
    have hdm := Nat.div_add_mod m u
    have hdn := Nat.div_add_mod n u
    rcases hq.lt_or_eq with hlt | hqe
    · split <;> split <;> omega
    · have hr : m % u ≤ n % u := by
        rw [hqe] at hdm
        omega
      rw [hqe]
      split <;> split <;> omega

/-- The integer that `ofInt` gives. -/
def roundInt (v : Int) : Int := v.sign * round v.natAbs

theorem ofInt_eq_finite (v : Int) : ofInt v = finite (roundInt v : ℚ) := rfl

theorem ofInt_inj {v w : Int} : ofInt v = ofInt w ↔ roundInt v = roundInt w := by
  simp [ofInt_eq_finite, finite]

theorem less_ofInt_eq (v w : Int) :
    less (ofInt v) (ofInt w) = decide (roundInt v < roundInt w) := by
  rw [ofInt_eq_finite, ofInt_eq_finite, less_finite]
  exact decide_eq_decide.mpr Int.cast_lt

theorem equal_ofInt_eq (v w : Int) :
    equal (ofInt v) (ofInt w) = decide (roundInt v = roundInt w) := by
  rw [ofInt_eq_finite, ofInt_eq_finite, equal_finite]
  exact decide_eq_decide.mpr Int.cast_inj

theorem roundInt_mono : Monotone roundInt := by
  intro v w h
  unfold roundInt
  rcases lt_trichotomy v 0 with hv | rfl | hv
  · rw [Int.sign_eq_neg_one_of_neg hv]
    rcases lt_trichotomy w 0 with hw | rfl | hw
    · rw [Int.sign_eq_neg_one_of_neg hw]
      have : round w.natAbs ≤ round v.natAbs := round_mono (by omega)
      omega
    · simp
    · rw [Int.sign_eq_one_of_pos hw]
      omega
  · rcases h.lt_or_eq with hw | rfl
    · rw [Int.sign_eq_one_of_pos hw]
      simp
    · exact le_rfl
  · rw [Int.sign_eq_one_of_pos hv, Int.sign_eq_one_of_pos (by omega)]
    have : round v.natAbs ≤ round w.natAbs := round_mono (by omega)
    omega

end Double

end HashJoin
