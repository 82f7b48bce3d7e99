import Reckoner.Proofs.DecimalValue
import Reckoner.Proofs.Rounding

namespace Reckoner

/-- What 100 significant digits leave out of a number, as a part of it. -/
def precisionError : ℚ :=
  5 * 10 ^ (-100 : ℤ)

theorem precisionError_pos : 0 < precisionError := by
  rw [precisionError]
  norm_num

theorem precisionError_lt : precisionError < 1 / 100 := by
  rw [precisionError]
  norm_num

namespace Exact

/-- The magnitude of a reciprocal has one digit more than are kept only if it is a power of ten. -/
theorem value_inverse_magnitude {divisor : ℕ} (hdivisor : divisor ≠ 0) (exponent : ℤ) :
    (Magnitude.mk (roundHalfEven (10 ^ (decimalLength divisor - 1 + precision)) divisor)
      (-(decimalLength divisor - 1 + precision : ℕ) - exponent)).value =
      roundedToDigits precision (Magnitude.mk divisor exponent).value⁻¹ := by
  have hpos : (0 : ℚ) < divisor := by exact_mod_cast Nat.pos_of_ne_zero hdivisor
  have hlength := decimalLength_pos divisor
  have hlow : (10 : ℚ) ^ 99 ≤ (10 ^ (decimalLength divisor - 1 + precision) : ℕ) / divisor := by
    rw [le_div_iff₀ hpos, precision,
      show decimalLength divisor - 1 + 100 = 99 + decimalLength divisor by omega, pow_add,
      Nat.cast_mul]
    push_cast
    refine mul_le_mul_of_nonneg_left ?_ (by positivity)
    exact_mod_cast (lt_ten_pow_decimalLength divisor).le
  have hhigh :
      (10 ^ (decimalLength divisor - 1 + precision) : ℕ) / divisor ≤ (10 : ℚ) ^ (99 + 1) := by
    rw [div_le_iff₀ hpos, precision, Nat.add_comm, pow_add, Nat.cast_mul]
    push_cast
    refine mul_le_mul_of_nonneg_left ?_ (by positivity)
    exact_mod_cast ten_pow_le_of_decimalLength hdivisor
  have hinverse : (Magnitude.mk divisor exponent).value⁻¹ =
      (10 ^ (decimalLength divisor - 1 + precision) : ℕ) / divisor *
        10 ^ (-(decimalLength divisor - 1 + precision : ℕ) - exponent : ℤ) := by
    rw [Magnitude.value, mul_inv, ← zpow_neg, Nat.cast_pow, Nat.cast_ofNat, ← zpow_natCast,
      div_eq_mul_inv, mul_comm ((10 : ℚ) ^ _) _, mul_assoc, ← zpow_add₀ (by norm_num)]
    congr 2
    dsimp only
    omega
  have hrounded := roundedToDigits_scaled hlow hhigh
    (-(decimalLength divisor - 1 + precision : ℕ) - exponent)
  rw [← hinverse, halfEven_div _ (Nat.pos_of_ne_zero hdivisor)] at hrounded
  exact hrounded.symm

theorem natAbs_coefficient_ne_zero {x : Exact} (hx : x.value ≠ 0) :
    x.coefficient.natAbs ≠ 0 := by
  rw [Int.natAbs_ne_zero]
  intro hzero
  exact hx (by simp [value, hzero])

/-- A reciprocal is the nearest number of so many digits. -/
theorem value_inverse {x : Exact} (hx : x.value ≠ 0) :
    x.inverse.value = roundedToDigits precision x.value⁻¹ := by
  have hmagnitude := value_inverse_magnitude (natAbs_coefficient_ne_zero hx) x.exponent
  rw [inverse, value_ofMagnitude, x.value_eq_signed]
  split
  · rw [inv_neg, roundedToDigits_neg]
    exact congrArg Neg.neg hmagnitude
  · exact hmagnitude

theorem le_mul_placesToReach {num : ℕ} (hnum : num ≠ 0) (den : ℕ) :
    den ≤ num * 10 ^ placesToReach num den := by
  fun_induction placesToReach num den with
  | case1 num h =>
    have hden : den ≤ num := h.resolve_left hnum
    simpa using hden
  | case2 num h ih =>
    have hmore := ih (by omega)
    rwa [pow_succ, Nat.mul_comm (10 ^ _) 10, ← Nat.mul_assoc]

/-- The digits of a quotient reach the precision. -/
theorem le_quotient {num den : ℕ} (hnum : num ≠ 0) (hden : den ≠ 0) :
    let first := placesToReach num den
    let places := first + (precision - decimalLength (num * 10 ^ first / den))
    (10 : ℚ) ^ 99 ≤ (num * 10 ^ places : ℕ) / den := by
  intro first places
  have hpos : (0 : ℚ) < den := by exact_mod_cast Nat.pos_of_ne_zero hden
  have hwhole : num * 10 ^ first / den ≠ 0 := by
    rw [← Nat.pos_iff_ne_zero, Nat.div_pos_iff]
    exact ⟨Nat.pos_of_ne_zero hden, le_mul_placesToReach hnum den⟩
  have hlength := ten_pow_le_of_decimalLength hwhole
  have hpositive := decimalLength_pos (num * 10 ^ first / den)
  have hfloor := Nat.div_mul_le_self (num * 10 ^ first) den
  rw [le_div_iff₀ hpos]
  have hnat : 10 ^ 99 * den ≤ num * 10 ^ places := by
    calc 10 ^ 99 * den
        ≤ 10 ^ (decimalLength (num * 10 ^ first / den) - 1 +
            (precision - decimalLength (num * 10 ^ first / den))) * den := by
          refine Nat.mul_le_mul_right _ (Nat.pow_le_pow_right (by decide) ?_)
          unfold precision
          omega
      _ = 10 ^ (decimalLength (num * 10 ^ first / den) - 1) * den *
            10 ^ (precision - decimalLength (num * 10 ^ first / den)) := by
          rw [pow_add]
          ring
      _ ≤ num * 10 ^ first * 10 ^ (precision - decimalLength (num * 10 ^ first / den)) :=
          Nat.mul_le_mul_right _ ((Nat.mul_le_mul_right _ hlength).trans hfloor)
      _ = num * 10 ^ places := by rw [mul_assoc, ← pow_add]
  exact_mod_cast hnat

/-- What is cut off a quotient is at most half. -/
theorem abs_half_up_sub_le (num : ℕ) {den : ℕ} (hden : den ≠ 0) :
    |(((2 * num + den) / (2 * den) : ℕ) : ℚ) - num / den| ≤ 1 / 2 := by
  have hpos : (0 : ℚ) < den := by exact_mod_cast Nat.pos_of_ne_zero hden
  have hlow := Nat.div_mul_le_self (2 * num + den) (2 * den)
  have hhigh := Nat.lt_div_mul_add (a := 2 * num + den) (show 0 < 2 * den by omega)
  generalize (2 * num + den) / (2 * den) = quotient at hlow hhigh ⊢
  have hlowQ : (quotient : ℚ) * (2 * den) ≤ 2 * num + den := by exact_mod_cast hlow
  have hhighQ : (2 * num + den : ℚ) < quotient * (2 * den) + 2 * den := by exact_mod_cast hhigh
  rw [abs_le]
  constructor
  · have hle : (num : ℚ) / den ≤ quotient + 1 / 2 := by
      rw [div_le_iff₀ hpos]
      linarith
    linarith
  · have hle : (quotient : ℚ) - 1 / 2 ≤ num / den := by
      rw [le_div_iff₀ hpos]
      linarith
    linarith

/-- A quotient in steps of its last digit. -/
theorem quotient_eq_steps (num den places : ℕ) (exponent : ℤ) :
    (num : ℚ) / den * 10 ^ exponent =
      (num * 10 ^ places : ℕ) / den * 10 ^ (exponent - places) := by
  rw [zpow_sub₀ (by norm_num), zpow_natCast]
  push_cast
  field_simp

/-- The magnitude of a quotient. -/
theorem abs_quotient_sub_le {num den : ℕ} (hnum : num ≠ 0) (hden : den ≠ 0) (exponent : ℤ) :
    let first := placesToReach num den
    let places := first + (precision - decimalLength (num * 10 ^ first / den))
    let exact := (num : ℚ) / den * 10 ^ exponent
    |(Magnitude.mk ((2 * num * 10 ^ places + den) / (2 * den)) (exponent - places)).value - exact| ≤
      precisionError * exact := by
  intro first places exact
  have hp := ten_zpow_pos (exponent - places)
  have hhalf := abs_half_up_sub_le (num * 10 ^ places) hden
  have hlarge : (10 : ℚ) ^ 99 ≤ (num * 10 ^ places : ℕ) / den := le_quotient hnum hden
  simp only [exact]
  rw [quotient_eq_steps num den places, Magnitude.value, ← sub_mul, abs_mul, abs_of_pos hp,
    ← mul_assoc]
  refine mul_le_mul_of_nonneg_right ?_ hp.le
  rw [← mul_assoc] at hhalf
  refine hhalf.trans ?_
  calc (1 / 2 : ℚ) = precisionError * 10 ^ 99 := by norm_num [precisionError]
    _ ≤ precisionError * ((num * 10 ^ places : ℕ) / den) :=
      mul_le_mul_of_nonneg_left hlarge precisionError_pos.le

/-- A quotient of no more digits than are kept is not rounded. -/
theorem quotient_of_digits {num den digits : ℕ} (hnum : num ≠ 0) (hden : den ≠ 0)
    (hdigits : digits < 10 ^ 100) {exponent e : ℤ}
    (h : (num : ℚ) / den * 10 ^ exponent = digits * 10 ^ e) :
    let first := placesToReach num den
    let places := first + (precision - decimalLength (num * 10 ^ first / den))
    (Magnitude.mk ((2 * num * 10 ^ places + den) / (2 * den)) (exponent - places)).value =
      (num : ℚ) / den * 10 ^ exponent := by
  intro first places
  have hpos : (0 : ℚ) < den := by exact_mod_cast Nat.pos_of_ne_zero hden
  have hlarge : (10 : ℚ) ^ 99 ≤ (num * 10 ^ places : ℕ) / den := le_quotient hnum hden
  have hsteps : ((num * 10 ^ places : ℕ) : ℚ) / den = digits * 10 ^ (e - (exponent - places)) := by
    rw [quotient_eq_steps num den places, ← eq_div_iff (ten_zpow_pos _).ne'] at h
    rw [h, zpow_sub₀ (by norm_num) e, mul_div_assoc]
  -- with a digit to drop there would be too few of them
  have hkept : 0 ≤ e - (exponent - places) := by
    by_contra hneg
    have hstep : (10 : ℚ) ^ (e - (exponent - places)) ≤ 10 ^ (-1 : ℤ) :=
      zpow_le_zpow_right₀ (by norm_num) (by omega)
    have hless : (digits : ℚ) < 10 ^ 100 := by exact_mod_cast hdigits
    have hsmall : (digits : ℚ) * 10 ^ (e - (exponent - places)) < 10 ^ 99 := by
      calc (digits : ℚ) * 10 ^ (e - (exponent - places))
          ≤ digits * 10 ^ (-1 : ℤ) := mul_le_mul_of_nonneg_left hstep (Nat.cast_nonneg _)
        _ < 10 ^ 100 * 10 ^ (-1 : ℤ) := mul_lt_mul_of_pos_right hless (by norm_num)
        _ = 10 ^ 99 := by norm_num
    linarith
  obtain ⟨more, hmore⟩ := Int.eq_ofNat_of_zero_le hkept
  have hwhole : num * 10 ^ places = digits * 10 ^ more * den := by
    rw [hmore, zpow_natCast, div_eq_iff hpos.ne'] at hsteps
    exact_mod_cast hsteps
  have hquotient : (2 * num * 10 ^ places + den) / (2 * den) = digits * 10 ^ more := by
    rw [Nat.mul_assoc, hwhole, Nat.mul_left_comm, Nat.add_comm,
      Nat.add_mul_div_right _ _ (by omega), Nat.div_eq_of_lt (by omega), Nat.zero_add]
  rw [hquotient, quotient_eq_steps num den places, Magnitude.value, hsteps, hmore, zpow_natCast]
  push_cast
  rfl

/-- Of two numbers the quotient has the sign, so that only its magnitude is rounded. -/
theorem abs_value_div_sub (x y : Exact) :
    let num := x.coefficient.natAbs
    let den := y.coefficient.natAbs
    let exponent := x.exponent - y.exponent
    let first := placesToReach num den
    let places := first + (precision - decimalLength (num * 10 ^ first / den))
    |x.value / y.value| = (num : ℚ) / den * 10 ^ exponent ∧
      |(x.div y).value - x.value / y.value| =
        |(Magnitude.mk ((2 * num * 10 ^ places + den) / (2 * den)) (exponent - places)).value -
          (num : ℚ) / den * 10 ^ exponent| := by
  intro num den exponent first places
  have hratio : x.magnitude.value / y.magnitude.value = (num : ℚ) / den * 10 ^ exponent := by
    rw [zpow_sub₀ (by norm_num)]
    exact mul_div_mul_comm _ _ _ _
  rw [← hratio]
  have hsign : x.value / y.value = if x.isNegative != y.isNegative then
      -(x.magnitude.value / y.magnitude.value) else x.magnitude.value / y.magnitude.value := by
    rw [x.value_eq_signed, y.value_eq_signed]
    cases x.isNegative <;> cases y.isNegative <;> simp [neg_div, div_neg]
  refine ⟨by rw [abs_div, value_magnitude, value_magnitude], ?_⟩
  rw [hsign, div, value_ofMagnitude]
  split
  · rw [← neg_add', abs_neg, ← sub_eq_add_neg]
    rfl
  · rfl

/-- A quotient is off by at most half a unit of the last digit. -/
theorem abs_value_div_sub_le {x y : Exact} (hx : x.value ≠ 0) (hy : y.value ≠ 0) :
    |(x.div y).value - x.value / y.value| ≤ precisionError * |x.value / y.value| := by
  obtain ⟨habs, hsub⟩ := abs_value_div_sub x y
  rw [hsub, habs]
  exact abs_quotient_sub_le (natAbs_coefficient_ne_zero hx) (natAbs_coefficient_ne_zero hy) _

theorem value_div_of_digits {x y : Exact} (hx : x.value ≠ 0) (hy : y.value ≠ 0) {digits : ℕ}
    (hdigits : digits < 10 ^ 100) {exponent : ℤ}
    (h : |x.value / y.value| = digits * 10 ^ exponent) :
    (x.div y).value = x.value / y.value := by
  obtain ⟨habs, hsub⟩ := abs_value_div_sub x y
  rw [← sub_eq_zero, ← abs_eq_zero, hsub, abs_eq_zero, sub_eq_zero]
  exact quotient_of_digits (natAbs_coefficient_ne_zero hx) (natAbs_coefficient_ne_zero hy) hdigits
    (habs.symm.trans h)

theorem value_div_of_zero {x : Exact} (hx : x.value = 0) {y : Exact} (hy : y.value ≠ 0) :
    (x.div y).value = 0 := by
  have hnum : x.coefficient.natAbs = 0 := by
    rw [← isZero_iff] at hx
    simpa [isZero] using hx
  have hquotient : y.coefficient.natAbs / (2 * y.coefficient.natAbs) = 0 :=
    Nat.div_eq_of_lt (by have := natAbs_coefficient_ne_zero hy; omega)
  simp [div, hnum, hquotient, value_ofMagnitude, Magnitude.value]

end Exact

end Reckoner
