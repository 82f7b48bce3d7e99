import Reckoner.Proofs.HeldExponent

namespace Reckoner

namespace Numeral

variable {n : Numeral} {length : ℤ} {places : ℕ}

/-- A number whose whole part has a given length, and so no leading zero. -/
structure HasLength (n : Numeral) (length : ℤ) : Prop where
  exact : n.IsExact
  low : 10 ^ (length - 1) ≤ |n.value|
  high : |n.value| < 10 ^ length

theorem HasLength.isZero (h : n.HasLength length) : n.isZero = false := by
  rw [Bool.eq_false_iff]
  intro hz
  have hlow := h.low
  rw [isZero_iff.mp hz, abs_zero] at hlow
  exact absurd (ten_zpow_pos (length - 1)) (not_lt.mpr hlow)

theorem HasLength.integerLength (h : n.HasLength length) : n.integerLength = length := by
  have hpos : 0 < |n.value| := (ten_zpow_pos _).trans_le h.low
  have hlow := (Int.zpow_le_iff_le_log (b := 10) (by decide) hpos).mp (by exact_mod_cast h.low)
  have hhigh := (Int.lt_zpow_iff_log_lt (b := 10) (by decide) hpos).mp (by exact_mod_cast h.high)
  rw [integerLength_eq (abs_pos.mp hpos)]
  omega

/-- Rounding keeps the length, or makes the number the next power of ten. -/
theorem HasLength.round (h : n.HasLength length) (hlength : 0 < length) (places : ℕ) :
    (n.round places).HasLength length ∨ |(n.round places).value| = 10 ^ length := by
  have hround : |(n.round places).value| = roundedTo (-places) |n.value| := by
    rw [abs_value, abs_value, magnitude_round h.exact.source]
  have hlow : 10 ^ (length - 1) ≤ |(n.round places).value| := by
    rw [hround]
    exact le_roundedTo (by omega) h.low
  have hhigh : |(n.round places).value| ≤ 10 ^ length := by
    rw [hround]
    exact roundedTo_le (by omega) h.high.le
  rcases hhigh.lt_or_eq with hlt | heq
  · exact Or.inl ⟨round_isExact h.exact places, hlow, hlt⟩
  · exact Or.inr heq

end Numeral

namespace Formatter

variable {f : Formatter} {n : Numeral}

/-- The digits of an exponent: no more of them than the pattern asks for unless it needs them. -/
structure LaidOutPower (minDigits : ℕ) (exponent : ℤ) (digits : List Char) : Prop where
  isDigit : ∀ c ∈ digits, c.isDigit
  number : Nat.ofDigitChars 10 digits 0 = exponent.natAbs
  shown : digits ≠ []
  least : minDigits ≤ digits.length
  trimmed : minDigits < digits.length → digits.head? ≠ some '0' ∨ digits = ['0']

/-- How a number above zero, or zero, is split into a mantissa and a power of ten, and what the
digits of both are. -/
structure Scientific (f : Formatter) (minDigits : ℕ) (q mantissa : ℚ) (exponent : ℤ)
    (whole fraction power : List Char) : Prop where
  laidOut : f.LaidOut mantissa whole fraction
  power : LaidOutPower minDigits exponent power
  value : mantissa * 10 ^ exponent =
    roundedToDigits (max f.pattern.minInteger 1 + f.pattern.maxFraction : ℕ) q
  normalized : q ≠ 0 → whole.length = max f.pattern.minInteger 1 ∧ whole.head? ≠ some '0'
  zero : q = 0 → mantissa = 0 ∧ exponent = 0
  ungrouped : f.symbols.grouping ∉ whole ++ f.pointText fraction ++ fraction

/-- Two digits before the point, at most two after it, and two in the exponent. -/
def scientific : Formatter where
  pattern := {
    source := "00.0#E00"
    positive := ⟨[], []⟩
    negative := none
    minInteger := 2
    maxInteger := 2
    minFraction := 1
    maxFraction := 2
    groupSize := 0
    alwaysPoint := false
    exponentDigits := some 2
    multiplier := 0 }
  symbols := { Locale.rootSymbols with currency := "$" }

end Formatter

end Reckoner
