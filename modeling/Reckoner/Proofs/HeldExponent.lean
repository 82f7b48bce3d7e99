import Reckoner.Proofs.RoundTrip

namespace Reckoner

/-- A whole number held in 32 bits with a sign, which stops at both ends. -/
def clamped32 (n : ℤ) : ℤ :=
  max (-2 ^ 31) (min n (2 ^ 31 - 1))

/-- A written exponent as 32 bits hold it: digits that do not fit count as `2 ^ 30 - 1`. -/
def heldExponent (negative : Bool) (digits : ℕ) : ℤ :=
  let held : ℤ := if digits < 2 ^ 31 then digits else 2 ^ 30 - 1
  if negative then -held else held

namespace Numeral

variable {n : Numeral}

/-- Multiplies by `10 ^ places` with the length of the whole part held in 32 bits. -/
def shiftHeld (n : Numeral) (places : ℤ) : Numeral :=
  n.withIntegerLength (clamped32 (n.integerLength + places))

theorem isZero_shift (n : Numeral) (places : ℤ) : (n.shift places).isZero = n.isZero := by
  unfold shift Digits.shift
  dsimp only
  split <;> rfl

theorem integerLength_shift (hz : n.isZero = false) (places : ℤ) :
    (n.shift places).integerLength = n.integerLength + places := by
  unfold shift Digits.shift
  simp only [hz, Bool.false_eq_true, if_false]

theorem integerLength_ofMagnitude {m : Magnitude} (hm : m.coefficient ≠ 0) (negative : Bool) :
    (ofMagnitude negative m).integerLength = decimalLength m.coefficient + m.exponent := by
  have habs : |(ofMagnitude negative m).value| = m.value := by
    rw [abs_value, magnitude_ofMagnitude, Magnitude.value_strip]
  have hvalue : (ofMagnitude negative m).value ≠ 0 := by
    rw [← abs_ne_zero, habs]
    exact fun h => hm (Magnitude.value_eq_zero_iff.mp h)
  rw [integerLength_eq hvalue, habs, Magnitude.log_value hm]
  omega

theorem shift_shift (hz : n.isZero = false) (p q : ℤ) :
    (n.shift p).shift q = n.shift (p + q) := by
  apply eq_of_toDigits_eq
  have hz' : n.figures.isEmpty = false := hz
  simp [shift, Digits.shift, Digits.isZero, hz', add_assoc]

theorem integerLength_withIntegerLength (hz : n.isZero = false) (length : ℤ) :
    (n.withIntegerLength length).integerLength = length := by
  rw [withIntegerLength_eq_shift, integerLength_shift hz]
  omega

/-- The last length that is asked for is the one that stays. -/
theorem withIntegerLength_withIntegerLength (hz : n.isZero = false) (a b : ℤ) :
    (n.withIntegerLength a).withIntegerLength b = n.withIntegerLength b := by
  rw [withIntegerLength_eq_shift, integerLength_withIntegerLength hz, withIntegerLength_eq_shift,
    shift_shift hz, withIntegerLength_eq_shift]
  congr 1
  omega

theorem abs_value_bounds (hz : n.isZero = false) :
    10 ^ (n.integerLength - 1) ≤ |n.value| ∧ |n.value| < 10 ^ n.integerLength := by
  have hc := coefficient_ne_zero hz
  rw [abs_value, integerLength_of_ne hz]
  exact ⟨Magnitude.le_value hc, n.magnitude.value_lt⟩

end Numeral

namespace Binary

variable {f : BinaryFormat} {coefficient : ℕ} {exponent : ℤ}

theorem ofDecimal_of_long (negative : Bool) (hc : coefficient ≠ 0)
    (h : f.unitBits < decimalLength coefficient + exponent) :
    (ofDecimal negative coefficient exponent : Binary f) = infinite negative := by
  unfold ofDecimal
  dsimp only
  rw [if_neg (by omega), if_pos h]

theorem ofDecimal_of_short (negative : Bool)
    (h : decimalLength coefficient + exponent < -f.unitBits) :
    (ofDecimal negative coefficient exponent : Binary f) = zero negative := by
  unfold ofDecimal
  dsimp only
  rw [if_pos (Or.inr h)]

end Binary

namespace Formatter

variable {n : Numeral}

theorem valueOf_of_not_whole (h : ∀ w : Int64, n.value ≠ w.toInt) :
    valueOf n = .double n.toBinary := by
  unfold valueOf
  split
  · rename_i w hw
    obtain ⟨k, hk, hword⟩ := Option.bind_eq_some_iff.mp hw
    refine absurd ?_ (h w)
    rw [Numeral.value_of_whole? hk, int64?_eq_some_iff.mp hword]
  · rfl

/-- So many digits before the point are infinitely many. -/
theorem valueOf_of_long (hz : n.isZero = false) (h : 1074 < n.integerLength) :
    valueOf n = .double (.infinite n.negative) := by
  have hlow := (Numeral.abs_value_bounds hz).1
  have hlarge : (10 : ℚ) ^ (19 : ℤ) ≤ 10 ^ (n.integerLength - 1) :=
    zpow_le_zpow_right₀ (by norm_num) (by omega)
  rw [valueOf_of_not_whole]
  · rw [Numeral.integerLength_of_ne hz] at h
    rw [Numeral.toBinary, Binary.ofDecimal_of_long _ (Numeral.coefficient_ne_zero hz) h]
  · intro w hw
    have hbound : |(w.toInt : ℚ)| ≤ 2 ^ 63 := by
      have hmin := Int64.le_toInt w
      have hmax := Int64.toInt_lt w
      rw [abs_le]
      constructor
      · exact_mod_cast hmin
      · exact_mod_cast hmax.le
    rw [hw] at hlow
    norm_num at hlarge
    linarith

/-- So many zeros after the point are all there is. -/
theorem valueOf_of_short (hz : n.isZero = false) (h : n.integerLength < -1074) :
    valueOf n = .double (.zero n.negative) := by
  have hhigh := (Numeral.abs_value_bounds hz).2
  have hsmall : (10 : ℚ) ^ n.integerLength ≤ 10 ^ (0 : ℤ) :=
    zpow_le_zpow_right₀ (by norm_num) (by omega)
  rw [valueOf_of_not_whole]
  · rw [Numeral.integerLength_of_ne hz] at h
    rw [Numeral.toBinary, Binary.ofDecimal_of_short _ h]
  · intro w hw
    rw [zpow_zero] at hsmall
    have hzero : w.toInt = 0 := by
      rw [hw] at hhigh
      have hlt : |w.toInt| < 1 := by exact_mod_cast lt_of_lt_of_le hhigh hsmall
      exact Int.abs_lt_one_iff.mp hlt
    rw [hzero, Int.cast_zero] at hw
    rw [Numeral.isZero_iff.mpr hw] at hz
    simp at hz

theorem valueOf_withIntegerLength (hz : n.isZero = false) {a b : ℤ}
    (h : a = b ∨ 1074 < a ∧ 1074 < b ∨ a < -1074 ∧ b < -1074) :
    valueOf (n.withIntegerLength a) = valueOf (n.withIntegerLength b) := by
  have hlength := Numeral.integerLength_withIntegerLength hz
  have hzero : ∀ length, (n.withIntegerLength length).isZero = false := by
    intro length
    rw [Numeral.withIntegerLength_eq_shift, Numeral.isZero_shift, hz]
  have hsign : ∀ length, (n.withIntegerLength length).negative = n.negative :=
    n.negative_withIntegerLength
  rcases h with rfl | ⟨ha, hb⟩ | ⟨ha, hb⟩
  · rfl
  · rw [valueOf_of_long (hzero a) (by rwa [hlength]), valueOf_of_long (hzero b) (by rwa [hlength]),
      hsign, hsign]
  · rw [valueOf_of_short (hzero a) (by rwa [hlength]),
      valueOf_of_short (hzero b) (by rwa [hlength]), hsign, hsign]

/-- Thirty-two bits are enough for the exponents of a short text: where they are not, the number is
infinite or zero anyway. -/
theorem valueOf_shiftHeld {negative : Bool} {digits multiplier : ℕ}
    (hlength : |n.integerLength| < 2 ^ 29) (hmultiplier : multiplier < 2 ^ 28) :
    valueOf ((n.shiftHeld (heldExponent negative digits)).shiftHeld (-multiplier)) =
      valueOf (n.shift ((if negative then -digits else digits : ℤ) - multiplier)) := by
  cases hz : n.isZero with
  | true =>
    simp only [Numeral.shiftHeld, Numeral.withIntegerLength_eq_shift, Numeral.shift_of_isZero hz]
  | false =>
    have hplain : n.shift ((if negative then -digits else digits : ℤ) - multiplier) =
        n.withIntegerLength (n.integerLength +
          ((if negative then -digits else digits : ℤ) - multiplier)) := by
      rw [Numeral.withIntegerLength_eq_shift]
      congr 1
      omega
    rw [hplain, Numeral.shiftHeld, Numeral.shiftHeld, Numeral.integerLength_withIntegerLength hz,
      Numeral.withIntegerLength_withIntegerLength hz]
    refine valueOf_withIntegerLength hz ?_
    rw [abs_lt] at hlength
    unfold clamped32 heldExponent
    cases negative <;> dsimp only <;> split <;> omega

end Formatter

end Reckoner
