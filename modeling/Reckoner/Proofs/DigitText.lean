import Mathlib.Algebra.Order.Floor.Semifield
import Reckoner.Proofs.Numeral

namespace Reckoner

theorem ofDigitChars_lt {text : List Char} (h : ∀ c ∈ text, c.isDigit) :
    Nat.ofDigitChars 10 text 0 < 10 ^ text.length := by
  induction text with
  | nil => simp [Nat.ofDigitChars_nil]
  | cons c rest ih =>
    have hrest := ih (fun d hd => h d (List.mem_cons_of_mem _ hd))
    have hc : c.toNat - '0'.toNat ≤ 9 := by
      have hdigit := h c List.mem_cons_self
      simp only [Char.isDigit, Bool.and_eq_true, decide_eq_true_eq,
        UInt32.le_iff_toNat_le] at hdigit
      have hhigh : c.toNat ≤ 57 := hdigit.2
      have hzero : '0'.toNat = 48 := rfl
      omega
    rw [Nat.ofDigitChars_cons, Nat.ofDigitChars_eq_ofDigitChars_zero, List.length_cons,
      Nat.pow_succ, Nat.mul_zero, Nat.zero_add]
    have hmul := Nat.mul_le_mul_left (10 ^ rest.length) hc
    omega

namespace Numeral

@[simp]
theorem digits_value (n : ℕ) : Nat.ofDigitChars 10 (digits n) 0 = n := by
  unfold digits
  split
  · rename_i h
    simp [h]
  · exact Nat.ofDigitChars_ten_toDigits

theorem isDigit_of_mem_digits {n : ℕ} {c : Char} (h : c ∈ digits n) : c.isDigit := by
  unfold digits at h
  split at h
  · simp at h
  · exact Nat.isDigit_of_mem_toDigits (by decide) (by decide) h

@[simp]
theorem padded_value (length : ℕ) (text : List Char) :
    Nat.ofDigitChars 10 (padded length text) 0 = Nat.ofDigitChars 10 text 0 := by
  simp [padded, Nat.ofDigitChars_append]

theorem isDigit_of_mem_padded {length : ℕ} {text : List Char} (ht : ∀ c ∈ text, c.isDigit)
    {c : Char} (h : c ∈ padded length text) : c.isDigit := by
  rcases List.mem_append.mp h with hz | hc
  · rw [List.eq_of_mem_replicate hz]
    decide
  · exact ht c hc

@[simp]
theorem length_padded (length : ℕ) (text : List Char) :
    (padded length text).length = max length text.length := by
  rw [padded, List.length_append, List.length_replicate]
  omega

/-- A digit after others that count is the last one of the number they make. -/
theorem digits_mul_ten_add {n figure : ℕ} (hn : n ≠ 0) (hfigure : figure ≤ 9) :
    digits (10 * n + figure) = digits n ++ [figure.digitChar] := by
  have hlast : Nat.toDigits 10 figure = [figure.digitChar] :=
    Nat.toDigits_of_lt_base (by omega)
  have happend := Nat.toDigits_append_toDigits (b := 10) (n := n) (d := figure) (by decide)
    (Nat.pos_of_ne_zero hn) (by omega)
  rw [digits, digits, if_neg (by omega), if_neg hn, ← happend, hlast]

/-- Figures are the digits of their number, after the zeros that they begin with. -/
theorem map_digitChar {figures : List ℕ} (h : ∀ figure ∈ figures, figure ≤ 9) :
    figures.map Nat.digitChar = padded figures.length (digits (Digits.number figures)) := by
  induction figures using List.reverseRecOn with
  | nil => rfl
  | append_singleton front last ih =>
    have hfront := ih fun figure hmem => h figure (List.mem_append_left _ hmem)
    have hlast : last ≤ 9 := h last (by simp)
    rw [List.map_append, hfront, Digits.number_concat, List.length_append, List.length_singleton]
    by_cases hzero : Digits.number front = 0
    · rw [hzero]
      by_cases hlastZero : last = 0
      · rw [hlastZero]
        simp [padded, digits, List.replicate_succ']
      · have hdigits : digits (10 * 0 + last) = [last.digitChar] := by
          rw [Nat.mul_zero, Nat.zero_add, digits, if_neg hlastZero,
            Nat.toDigits_of_lt_base (by omega)]
        have hnone : digits 0 = [] := rfl
        rw [hdigits, hnone]
        simp [padded]
    · rw [digits_mul_ten_add hzero hlast]
      simp [padded]

theorem integerDigits_eq_padded (n : Numeral) :
    n.integerDigits = padded n.toDigits.integerDigits.length (digits
      (n.magnitude.coefficient * 10 ^ n.magnitude.exponent.toNat /
        10 ^ (-n.magnitude.exponent).toNat)) := by
  rw [integerDigits, map_digitChar (Digits.integerDigits_le_nine n.normal.le_nine),
    Digits.number_integerDigits n.normal.le_nine]

theorem fractionDigits_eq (n : Numeral) :
    n.fractionDigits = padded (-n.magnitude.exponent).toNat
      (digits (n.magnitude.coefficient % 10 ^ (-n.magnitude.exponent).toNat)) := by
  rw [fractionDigits, map_digitChar (Digits.fractionDigits_le_nine n.normal.le_nine),
    Digits.number_fractionDigits n.normal.le_nine, Digits.length_fractionDigits]

theorem eq_zero_of_digitChar : ∀ figure ≤ 9, figure.digitChar = '0' → figure = 0 := by
  decide

/-- The digits before the point begin as the figures that are held. -/
theorem head?_integerDigits (n : Numeral) : n.integerDigits.head? ≠ some '0' := by
  rw [integerDigits, List.head?_map]
  intro hzero
  obtain ⟨figure, hfigure, hchar⟩ := Option.map_eq_some_iff.mp hzero
  have hnine := Digits.integerDigits_le_nine n.normal.le_nine figure (List.mem_of_head? hfigure)
  apply n.normal.head?_integerDigits
  rw [hfigure, eq_zero_of_digitChar figure hnine hchar]

/-- The digits after the point end with one that counts. -/
theorem getLast?_fractionDigits (n : Numeral) : n.fractionDigits.getLast? ≠ some '0' := by
  rw [fractionDigits, List.getLast?_map]
  intro hzero
  obtain ⟨figure, hfigure, hchar⟩ := Option.map_eq_some_iff.mp hzero
  have hnine := Digits.fractionDigits_le_nine n.normal.le_nine figure
    (List.mem_of_getLast? hfigure)
  apply n.normal.getLast?_fractionDigits
  rw [hfigure, eq_zero_of_digitChar figure hnine hchar]

theorem padded_eq_self {length : ℕ} {text : List Char}
    (h : (padded length text).head? ≠ some '0') : padded length text = text := by
  unfold padded at h ⊢
  cases hcount : length - text.length with
  | zero => rfl
  | succ count =>
    rw [hcount, List.replicate_succ] at h
    simp at h

theorem isDigit_of_mem_integerDigits {n : Numeral} {c : Char} (h : c ∈ n.integerDigits) :
    c.isDigit := by
  rw [integerDigits_eq_padded] at h
  exact isDigit_of_mem_padded (fun _ hc => isDigit_of_mem_digits hc) h

theorem isDigit_of_mem_fractionDigits {n : Numeral} {c : Char} (h : c ∈ n.fractionDigits) :
    c.isDigit := by
  rw [fractionDigits_eq] at h
  exact isDigit_of_mem_padded (fun _ hc => isDigit_of_mem_digits hc) h

/-- The digits before the point are those of the whole part. -/
theorem integerDigits_eq (n : Numeral) : n.integerDigits = digits ⌊|n.value|⌋₊ := by
  have hhead := n.head?_integerDigits
  rw [abs_value, Magnitude.value_ratio, Nat.floor_div_eq_div]
  rw [integerDigits_eq_padded] at hhead ⊢
  exact padded_eq_self hhead

theorem length_fractionDigits (n : Numeral) :
    n.fractionDigits.length = (-n.magnitude.exponent).toNat := by
  rw [fractionDigits, List.length_map, Digits.length_fractionDigits]

/-- All digits together are the magnitude without its point. -/
theorem allDigits_value (n : Numeral) :
    (Nat.ofDigitChars 10 (n.integerDigits ++ n.fractionDigits) 0 : ℚ) =
      |n.value| * 10 ^ n.fractionDigits.length := by
  have hwhole : Nat.ofDigitChars 10 n.integerDigits 0 =
      n.magnitude.coefficient * 10 ^ n.magnitude.exponent.toNat /
        10 ^ (-n.magnitude.exponent).toNat := by
    rw [integerDigits_eq_padded, padded_value, digits_value]
  have hfraction : Nat.ofDigitChars 10 n.fractionDigits 0 =
      n.magnitude.coefficient % 10 ^ (-n.magnitude.exponent).toNat := by
    rw [fractionDigits_eq, padded_value, digits_value]
  rw [Nat.ofDigitChars_append, Nat.ofDigitChars_eq_ofDigitChars_zero, length_fractionDigits,
    hwhole, hfraction, abs_value, Magnitude.value_ratio]
  rcases Int.le_total 0 n.magnitude.exponent with h | h
  · have hz : (-n.magnitude.exponent).toNat = 0 := by omega
    simp [hz, Nat.mod_one]
  · have hz : n.magnitude.exponent.toNat = 0 := by omega
    rw [hz, Nat.pow_zero, Nat.mul_one, Nat.div_add_mod, Nat.cast_pow, Nat.cast_ofNat,
      div_mul_cancel₀ _ (pow_ne_zero _ (by norm_num))]

/-- A number with no more digits after the point than are kept stays as it is. -/
theorem round_of_length_le {n : Numeral} {places : ℕ} (h : n.fractionDigits.length ≤ places) :
    n.round places = n := by
  rw [length_fractionDigits] at h
  exact round_of_le (by omega)

/-- Rounding leaves no more digits after the point than it was told to. -/
theorem length_fractionDigits_round (n : Numeral) (places : ℕ) :
    (n.round places).fractionDigits.length ≤ places := by
  rw [length_fractionDigits]
  rcases Int.lt_or_le 0 (-n.magnitude.exponent - places) with hlt | hle
  · rw [magnitude_round_of_lt hlt rfl]
    have hstrip := Magnitude.le_exponent_strip
      (m := ⟨n.magnitude.coefficient / 10 ^ (-n.magnitude.exponent - places).toNat +
        (Digits.goesUp n.source n.magnitude.coefficient
          (10 ^ (-n.magnitude.exponent - places).toNat)).toNat, -places⟩) (by simp)
    dsimp only at hstrip
    omega
  · rw [round_of_le (by omega)]
    omega

end Numeral

end Reckoner
