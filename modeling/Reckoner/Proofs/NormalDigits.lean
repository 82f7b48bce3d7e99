import Reckoner.Proofs.HeldExponent

namespace Reckoner

namespace Digits

variable {d : Digits} {text whole fraction : List Char} {negative : Bool}

def value (d : Digits) : ℚ :=
  if d.negative then -d.magnitude.value else d.magnitude.value

/-- Multiplies by `10 ^ places` with the length of the whole part held in 32 bits. -/
def shiftHeld (d : Digits) (places : ℤ) : Digits :=
  d.withIntegerLength (clamped32 (d.integerLength + places))

/-- The digits that readers make and that their users change. -/
inductive Reachable : Digits → Prop
  | plain {text : List Char} {d : Digits} (h : ofPlain? text = some d) : Reachable d
  | rank {negative : Bool} {rank : Fin BinaryFormat.double.ranks} {d : Digits}
    (h : ofRank? negative rank = some d) : Reachable d
  | parts (negative : Bool) {all : List ℕ} (whole : ℤ) (h : ∀ figure ∈ all, figure ≤ 9) :
    Reachable (ofParts negative all whole)
  | shift {d : Digits} (places : ℤ) (h : Reachable d) : Reachable (d.shift places)
  | withIntegerLength {d : Digits} (length : ℤ) (h : Reachable d) :
    Reachable (d.withIntegerLength length)
  | round {d : Digits} (places : ℕ) (h : Reachable d) : Reachable (d.round places)

/-- No step leaves the normal form. -/
theorem Reachable.normal (h : Reachable d) : Normal d.figures d.integerLength := by
  induction h with
  | plain h => exact normal_ofPlain? h
  | rank h => exact normal_ofRank? h
  | parts negative whole h => exact normal_ofParts negative whole h
  | shift places _ ih => exact normal_shift ih places
  | withIntegerLength length _ ih => exact normal_withIntegerLength ih length
  | round places _ ih => exact normal_round ih places

/-- The normal form, and what each operation makes of the number. -/
structure Sound (d : Digits) : Prop where
  le_nine : ∀ figure ∈ d.figures, figure ≤ 9
  head : d.figures.head? ≠ some 0
  last : d.figures.getLast? ≠ some 0
  zero : d.figures = [] → d.integerLength = 0
  shift : ∀ places, (d.shift places).value = d.value * 10 ^ places
  held : ∀ places, -2 ^ 31 ≤ d.integerLength + places → d.integerLength + places < 2 ^ 31 →
    d.shiftHeld places = d.shift places
  whole : d.integerDigits.head? ≠ some 0
  fraction : d.fractionDigits.getLast? ≠ some 0
  digits : |d.value| = number (d.integerDigits ++ d.fractionDigits) / 10 ^ d.fractionDigits.length
  round : d.source = .eq → ∀ places : ℕ, (d.round places).value = roundedTo (-places) d.value
  settled : ∀ places, (d.round places).round places = d.round places

theorem Normal.sound (h : Normal d.figures d.integerLength) : d.Sound where
  le_nine := h.le_nine
  head := h.head
  last := h.last
  zero := h.zero
  shift := Numeral.value_shift ⟨d, h⟩
  held places hlow hhigh := by
    have hsame : clamped32 (d.integerLength + places) = d.integerLength + places := by
      unfold clamped32
      omega
    rw [shiftHeld, hsame]
    rfl
  whole := h.head?_integerDigits
  fraction := h.getLast?_fractionDigits
  digits := by
    have habs : |d.value| = d.magnitude.value := Numeral.abs_value ⟨d, h⟩
    rw [habs, Magnitude.value_ratio, number_append_digits, length_fractionDigits, Nat.cast_pow,
      Nat.cast_ofNat]
    rfl
  round hsource := Numeral.value_round (n := ⟨d, h⟩) hsource
  settled places := by
    have hplaces := (Numeral.mk d h).length_fractionDigits_round places
    exact congrArg Numeral.toDigits (Numeral.round_of_length_le hplaces)

theorem exists_of_plain (h : Plain text negative whole fraction) :
    ∃ d, ofPlain? text = some d ∧ d.negative = negative ∧
      d.value = (if negative then -1 else 1) *
        (Nat.ofDigitChars 10 (whole ++ fraction) 0 / 10 ^ fraction.length : ℚ) := by
  refine ⟨_, ofPlain?_of_plain h, rfl, ?_⟩
  rw [value, magnitude_value_unsigned, zpow_neg, zpow_natCast, ← div_eq_mul_inv]
  change (if negative then _ else _) = _
  cases negative <;> simp

/-- Digits are in their normal form whatever is done with them, and a plain text of digits with at
most one point is what they are read from. -/
theorem reachable_sound :
    (∀ d : Digits, d.Reachable → d.Sound) ∧
    ∀ text : List Char,
      ((ofPlain? text).isSome ↔ ∃ negative whole fraction, Plain text negative whole fraction) ∧
      ∀ negative whole fraction, Plain text negative whole fraction →
        ∃ d, ofPlain? text = some d ∧ d.negative = negative ∧
          d.value = (if negative then -1 else 1) *
            (Nat.ofDigitChars 10 (whole ++ fraction) 0 / 10 ^ fraction.length : ℚ) := by
  refine ⟨fun d h => h.normal.sound, fun text => ⟨?_, fun negative whole fraction => exists_of_plain⟩⟩
  constructor
  · intro h
    obtain ⟨d, hd⟩ := Option.isSome_iff_exists.mp h
    obtain ⟨negative, whole, fraction, hplain, -⟩ := ofPlain?_eq_some_iff.mp hd
    exact ⟨negative, whole, fraction, hplain⟩
  · rintro ⟨negative, whole, fraction, hplain⟩
    rw [ofPlain?_of_plain hplain]
    rfl

/-- The nines carry into a new first figure, and the zeros that they leave are not kept. -/
theorem reachable_sound_nines :
    let d := ofParts true [0, 9, 9, 9, 5, 0] 2
    d.Reachable ∧ d.source = .eq ∧ d.figures = [9, 9, 9, 5] ∧
    (d.round 2).figures = [1] ∧ (d.round 2).integerLength = 2 ∧
    (d.round 2).value = roundedTo (-(2 : ℕ)) d.value ∧ (d.round 2).round 2 = d.round 2 ∧
    Plain ['-', '.', '5', '0'] true [] ['5', '0'] ∧
    ∃ half, ofPlain? ['-', '.', '5', '0'] = some half ∧ half.value = -(50 / 100) := by
  intro d
  have hreachable : d.Reachable := .parts true 2 (by decide)
  have hplain : Plain ['-', '.', '5', '0'] true [] ['5', '0'] :=
    ⟨['.', '5', '0'], rfl, .inr rfl, List.all_eq_true.mp rfl, by decide⟩
  obtain ⟨hsound, hread⟩ := reachable_sound
  have hd := hsound d hreachable
  obtain ⟨half, hhalf, -, hvalue⟩ := (hread _).2 true [] ['5', '0'] hplain
  refine ⟨hreachable, rfl, by decide, by decide, by decide, hd.round rfl 2, hd.settled 2, hplain,
    half, hhalf, ?_⟩
  have hdigits : Nat.ofDigitChars 10 ([] ++ ['5', '0']) 0 = 50 := rfl
  rw [hvalue, hdigits]
  norm_num

end Digits

end Reckoner
