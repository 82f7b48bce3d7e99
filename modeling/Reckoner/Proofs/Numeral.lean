import Reckoner.Numeral
import Reckoner.Proofs.Digits

namespace Reckoner

namespace Numeral

def value (n : Numeral) : ℚ :=
  if n.negative then -n.magnitude.value else n.magnitude.value

/-- A number without trailing zeros that stands for itself, not for a double near it. -/
structure IsExact (n : Numeral) : Prop where
  stripped : n.magnitude.Stripped
  source : n.source = .eq

theorem stripped (n : Numeral) : n.magnitude.Stripped :=
  n.normal.stripped

theorem ofMagnitude_isExact (negative : Bool) (m : Magnitude) : (ofMagnitude negative m).IsExact :=
  ⟨stripped _, rfl⟩

@[simp]
theorem magnitude_ofMagnitude (negative : Bool) (m : Magnitude) :
    (ofMagnitude negative m).magnitude = m.strip := by
  apply (stripped _).eq_of_value_eq m.strip_stripped
  have hlength : (((Nat.toDigits 10 m.coefficient).map Digits.figure).length : ℤ) =
      decimalLength m.coefficient := by
    rw [List.length_map, decimalLength]
  rw [ofMagnitude, Digits.value_ofParts, Digits.number_map_figure, Nat.ofDigitChars_ten_toDigits,
    hlength, add_sub_cancel_left, Magnitude.value_strip, Magnitude.value]

theorem value_ofMagnitude (negative : Bool) (m : Magnitude) :
    (ofMagnitude negative m).value = if negative then -m.value else m.value := by
  rw [value, magnitude_ofMagnitude, Magnitude.value_strip]
  rfl

@[simp]
theorem negative_ofMagnitude (negative : Bool) (m : Magnitude) :
    (ofMagnitude negative m).negative = negative :=
  rfl

@[simp]
theorem value_ofExact (x : Exact) : (ofExact x).value = x.value := by
  rw [ofExact, value_ofMagnitude, Exact.value_magnitude]
  by_cases h : x.value < 0
  · rw [if_pos (Exact.isNegative_iff.mpr h), abs_of_neg h, neg_neg]
  · rw [if_neg (fun hn => h (Exact.isNegative_iff.mp hn)), abs_of_nonneg (not_lt.mp h)]

theorem abs_value (n : Numeral) : |n.value| = n.magnitude.value := by
  unfold value
  split <;> simp [abs_of_nonneg n.magnitude.value_nonneg]

theorem eq_of_toDigits_eq {m n : Numeral} (h : m.toDigits = n.toDigits) : m = n := by
  cases m
  cases n
  cases h
  rfl

theorem eq_of_magnitude_eq {m n : Numeral} (hsign : m.negative = n.negative)
    (hsource : m.source = n.source) (hmagnitude : m.magnitude = n.magnitude) : m = n :=
  eq_of_toDigits_eq (Digits.eq_of_magnitude_eq m.normal n.normal hsign hsource hmagnitude)

/-- One number with one sign has one exact form. -/
theorem IsExact.eq {m n : Numeral} (hm : m.IsExact) (hn : n.IsExact)
    (hsign : m.negative = n.negative) (hvalue : |m.value| = |n.value|) : m = n := by
  rw [abs_value, abs_value] at hvalue
  exact eq_of_magnitude_eq hsign (hm.source.trans hn.source.symm)
    (hm.stripped.eq_of_value_eq hn.stripped hvalue)

theorem isZero_iff_coefficient {n : Numeral} : n.isZero = true ↔ n.magnitude.coefficient = 0 :=
  List.isEmpty_iff.trans n.normal.number_eq_zero_iff.symm

theorem coefficient_ne_zero {n : Numeral} (hz : n.isZero = false) : n.magnitude.coefficient ≠ 0 := by
  rw [ne_eq, ← isZero_iff_coefficient, hz]
  exact Bool.false_ne_true

theorem isZero_iff {n : Numeral} : n.isZero = true ↔ n.value = 0 := by
  rw [← abs_eq_zero, abs_value, Magnitude.value_eq_zero_iff, isZero_iff_coefficient]

/-- A number is below zero if it has the sign and is not zero. -/
theorem negative_iff {n : Numeral} : (n.negative && !n.isZero) = decide (n.value < 0) := by
  have hnonneg := n.magnitude.value_nonneg
  cases hz : n.isZero with
  | true => simp [isZero_iff.mp hz]
  | false =>
    have hne : n.value ≠ 0 := fun h => by simp [isZero_iff.mpr h] at hz
    have hpos : 0 < n.magnitude.value := by
      rw [← abs_value]
      exact abs_pos.mpr hne
    cases hs : n.negative <;> simp [value, hs, hpos, hnonneg]

theorem magnitude_shift_of_ne {n : Numeral} (hz : n.isZero = false) (places : ℤ) :
    (n.shift places).magnitude =
      ⟨n.magnitude.coefficient, n.magnitude.exponent + places⟩ := by
  unfold shift Digits.shift
  simp only [hz, Bool.false_eq_true, if_false, Digits.magnitude, Magnitude.mk.injEq, true_and]
  ring

theorem shift_of_isZero {n : Numeral} (hz : n.isZero = true) (places : ℤ) : n.shift places = n :=
  eq_of_toDigits_eq (if_pos hz)

@[simp]
theorem negative_shift (n : Numeral) (places : ℤ) : (n.shift places).negative = n.negative := by
  unfold shift Digits.shift
  dsimp only
  split <;> rfl

@[simp]
theorem source_shift (n : Numeral) (places : ℤ) : (n.shift places).source = n.source := by
  unfold shift Digits.shift
  dsimp only
  split <;> rfl

theorem shift_isExact {n : Numeral} (h : n.IsExact) (places : ℤ) : (n.shift places).IsExact :=
  ⟨stripped _, (n.source_shift places).trans h.source⟩

@[simp]
theorem value_shift (n : Numeral) (places : ℤ) :
    (n.shift places).value = n.value * 10 ^ places := by
  cases hz : n.isZero with
  | true => rw [shift_of_isZero hz, isZero_iff.mp hz, zero_mul]
  | false =>
    rw [value, value, negative_shift, magnitude_shift_of_ne hz, Magnitude.value, Magnitude.value,
      zpow_add₀ (by norm_num)]
    split <;> ring

theorem ofMagnitude_shift (negative : Bool) (m : Magnitude) (places : ℤ) :
    (ofMagnitude negative m).shift places =
      ofMagnitude negative ⟨m.coefficient, m.exponent + places⟩ :=
  (shift_isExact (ofMagnitude_isExact _ _) _).eq (ofMagnitude_isExact _ _) (negative_shift _ _) (by
    rw [value_shift, value_ofMagnitude, value_ofMagnitude, Magnitude.value, Magnitude.value,
      zpow_add₀ (by norm_num)]
    split <;> congr 1 <;> ring)

theorem integerLength_of_isZero {n : Numeral} (hz : n.isZero = true) : n.integerLength = 0 :=
  n.normal.zero (List.isEmpty_iff.mp hz)

theorem integerLength_of_ne {n : Numeral} (hz : n.isZero = false) :
    n.integerLength = decimalLength n.magnitude.coefficient + n.magnitude.exponent := by
  have hne : n.figures ≠ [] := fun hnil => by simp [Digits.isZero, hnil] at hz
  rw [Digits.coefficient_magnitude, Digits.exponent_magnitude, n.normal.decimalLength_number hne]
  omega

/-- The length of the whole part is read off the place of the leading digit. -/
theorem integerLength_eq {n : Numeral} (h : n.value ≠ 0) :
    n.integerLength = Int.log 10 |n.value| + 1 := by
  have hz : n.isZero = false := Bool.eq_false_iff.mpr (fun hz => h (isZero_iff.mp hz))
  rw [integerLength_of_ne hz, abs_value, Magnitude.log_value (coefficient_ne_zero hz)]
  omega

/-- The point is moved by as much as the length changes. -/
theorem withIntegerLength_eq_shift (n : Numeral) (length : ℤ) :
    n.withIntegerLength length = n.shift (length - n.integerLength) := by
  apply eq_of_toDigits_eq
  simp only [withIntegerLength, shift, Digits.withIntegerLength, Digits.shift,
    add_sub_cancel]

@[simp]
theorem negative_withIntegerLength (n : Numeral) (length : ℤ) :
    (n.withIntegerLength length).negative = n.negative := by
  rw [withIntegerLength_eq_shift, negative_shift]

theorem withIntegerLength_isExact {n : Numeral} (h : n.IsExact) (length : ℤ) :
    (n.withIntegerLength length).IsExact := by
  rw [withIntegerLength_eq_shift]
  exact shift_isExact h _

@[simp]
theorem value_withIntegerLength (n : Numeral) (length : ℤ) :
    (n.withIntegerLength length).value = n.value * 10 ^ (length - n.integerLength) := by
  rw [withIntegerLength_eq_shift, value_shift]

theorem round_isExact {n : Numeral} (h : n.IsExact) (places : ℕ) : (n.round places).IsExact :=
  ⟨stripped _, Digits.source_round h.source places⟩

@[simp]
theorem negative_round (n : Numeral) (places : ℕ) : (n.round places).negative = n.negative :=
  Digits.negative_round _ _

theorem round_of_le {n : Numeral} {places : ℕ} (h : -n.magnitude.exponent ≤ places) :
    n.round places = n :=
  eq_of_toDigits_eq (Digits.round_of_le h)

/-- How often the step of the places kept goes into the magnitude. -/
theorem magnitude_div_step (m : Magnitude) (places : ℕ) (h : 0 ≤ -m.exponent - places) :
    m.value / 10 ^ (-places : ℤ) =
      (m.coefficient : ℚ) / (10 ^ (-m.exponent - places).toNat : ℕ) := by
  rw [Magnitude.value, Nat.cast_pow, Nat.cast_ofNat, ← zpow_natCast, mul_div_assoc,
    ← zpow_sub₀ (by norm_num), div_eq_mul_inv, ← zpow_neg]
  congr 2
  omega

/-- Rounding to fewer places leaves a multiple of the last place, without its zeros. -/
theorem magnitude_round_of_lt {n : Numeral} {places den : ℕ}
    (hplaces : 0 < -n.magnitude.exponent - places)
    (hden : den = 10 ^ (-n.magnitude.exponent - places).toNat) :
    (n.round places).magnitude =
      (Magnitude.mk (n.magnitude.coefficient / den +
        (Digits.goesUp n.source n.magnitude.coefficient den).toNat) (-places)).strip := by
  apply (stripped _).eq_of_value_eq (Magnitude.strip_stripped _)
  rw [Magnitude.value_strip, round, Digits.value_round_of_lt n.normal hplaces hden, Magnitude.value]

/-- The number of an exact ratio goes up where the even neighbour is above. -/
theorem goesUp_eq (num den : ℕ) :
    num / den + (Digits.goesUp .eq num den).toNat = roundHalfEven num den := by
  unfold Digits.goesUp
  rcases roundHalfEven_cases num den with ⟨hc, hr⟩ | ⟨hc, hr⟩ | ⟨hc, hr⟩
  · simp [hr, Nat.compare_eq_lt.mpr hc]
  · simp [hr, Nat.compare_eq_gt.mpr hc]
  · rw [hr, Nat.compare_eq_eq.mpr hc]
    rcases Nat.mod_two_eq_zero_or_one (num / den) with he | ho
    · simp [he]
    · simp [ho]

theorem magnitude_round {n : Numeral} (h : n.source = .eq) (places : ℕ) :
    (n.round places).magnitude.value = roundedTo (-places) n.magnitude.value := by
  rcases Int.lt_or_le 0 (-n.magnitude.exponent - places) with hlt | hle
  · have hden : 0 < 10 ^ (-n.magnitude.exponent - places).toNat := Nat.pow_pos (by decide)
    rw [magnitude_round_of_lt hlt rfl, Magnitude.value_strip, Magnitude.value, h, goesUp_eq,
      roundedTo, magnitude_div_step _ _ hlt.le, halfEven_div _ hden, Int.cast_natCast]
  · have hkeep := roundedTo_of_le (show (-places : ℤ) ≤ n.magnitude.exponent by omega)
      n.magnitude.coefficient
    rw [Int.cast_natCast] at hkeep
    rw [round_of_le (by omega)]
    exact hkeep.symm

/-- Dropping digits of an exact number is rounding to the even neighbour. -/
theorem value_round {n : Numeral} (h : n.source = .eq) (places : ℕ) :
    (n.round places).value = roundedTo (-places) n.value := by
  rw [value, negative_round, magnitude_round h, value]
  split
  · exact (roundedTo_neg _ _).symm
  · rfl

end Numeral

end Reckoner
