import Mathlib.Data.Bool.AllAny
import Reckoner.Proofs.HeldExponent
import Reckoner.Proofs.NumberGrammar

namespace Reckoner

namespace Value

theorem IsReading.unique {r : ℚ} {v w : Value} (hv : v.IsReading r) (hw : w.IsReading r) :
    v = w := by
  cases v with
  | long n =>
    rw [show r = n.toInt from hv] at hw
    exact hw.eq_long.symm
  | double x =>
    cases w with
    | long n => exact absurd hw (hv.2 n)
    | double y => rw [hv.1.unique hw.1]
    | _ => exact hw.elim
  | _ => exact hv.elim

/-- What a sign and a magnitude are read as. A zero with a minus sign is a double. -/
def Denotes (negative : Bool) (x : ℚ) (v : Value) : Prop :=
  if negative ∧ x = 0 then v = .double (.zero true)
  else v.IsReading (if negative then -x else x)

theorem Denotes.unique {negative : Bool} {x : ℚ} {v w : Value} (hv : v.Denotes negative x)
    (hw : w.Denotes negative x) : v = w := by
  unfold Denotes at hv hw
  split at hv
  · rename_i hzero
    rw [if_pos hzero] at hw
    rw [hv, hw]
  · rename_i hzero
    rw [if_neg hzero] at hw
    exact hv.unique hw

end Value

namespace NumberText

variable {s : Symbols} {b : NumberText}

theorem digits_length_le (s : Symbols) (b : NumberText) :
    b.digits.length ≤ (b.text s).length := by
  have hwhole := List.length_filter_le Char.isDigit b.whole
  cases hb : b.fraction <;> simp [digits, text, mantissaText, hb] <;> omega

theorem places_le (b : NumberText) : b.places ≤ b.digits.length := by
  simp [places, digits]

theorem Conforms.isDigit_of_mem {f : Formatter} (h : b.Conforms f) {c : Char}
    (hc : c ∈ b.digits) : c.isDigit := by
  rcases List.mem_append.mp hc with hc | hc
  · exact (List.mem_filter.mp hc).2
  · cases hb : b.fraction with
    | none => simp [hb] at hc
    | some digits => exact h.fraction digits hb c (by simpa [hb] using hc)

/-- The number without its exponent. -/
def mantissa (b : NumberText) : Magnitude :=
  ⟨Nat.ofDigitChars 10 b.digits 0, -b.places⟩

/-- The exponent as 32 bits hold it. -/
def heldPower (b : NumberText) : ℤ :=
  b.exponent.elim 0 fun (negative, digits) => heldExponent negative (Nat.ofDigitChars 10 digits 0)

/-- The number that a formatter reads, with all exponents held in 32 bits. -/
def held (f : Formatter) (negative : Bool) (b : NumberText) : Numeral :=
  ((Numeral.ofMagnitude negative b.mantissa).shiftHeld b.heldPower).shiftHeld
    (-f.pattern.multiplier)

/-- The point stands somewhere in the digits. -/
theorem Conforms.abs_integerLength_le {f : Formatter} (h : b.Conforms f) (negative : Bool) :
    |(Numeral.ofMagnitude negative b.mantissa).integerLength| ≤ b.digits.length := by
  have hplaces := b.places_le
  by_cases hc : b.mantissa.coefficient = 0
  · have hzero : (Numeral.ofMagnitude negative b.mantissa).isZero = true := by
      rw [Numeral.isZero_iff, Numeral.value_ofMagnitude, Magnitude.value_eq_zero_iff.mpr hc]
      simp
    simp [Numeral.integerLength_of_isZero hzero]
  · have hlength : decimalLength b.mantissa.coefficient ≤ b.digits.length := by
      have hlt := ofDigitChars_lt (fun c => h.isDigit_of_mem (c := c))
      have hpos : 0 < b.digits.length := by
        rw [List.length_pos_iff_ne_nil]
        intro hnil
        simp [mantissa, hnil] at hc
      exact (Nat.length_toDigits_le_iff (by decide) hpos).mpr hlt
    have hpos := decimalLength_pos b.mantissa.coefficient
    rw [Numeral.integerLength_ofMagnitude hc, abs_le]
    simp only [mantissa] at hlength hpos ⊢
    omega

/-- In a short text the exponent may as well be held in 32 bits. -/
theorem valueOf_held {f : Formatter} (h : b.Conforms f)
    (hmultiplier : f.pattern.multiplier < 2 ^ 28) (hlength : b.digits.length < 2 ^ 29) (negative : Bool) :
    Formatter.valueOf (b.held f negative) = Formatter.valueOf
      ((Numeral.ofMagnitude negative b.magnitude).shift (-f.pattern.multiplier)) := by
  have hshort : |(Numeral.ofMagnitude negative b.mantissa).integerLength| < 2 ^ 29 :=
    lt_of_le_of_lt (h.abs_integerLength_le negative) (by exact_mod_cast hlength)
  obtain ⟨sign, digits, hpower, hheld⟩ : ∃ (sign : Bool) (digits : ℕ),
      b.power = (if sign then -digits else digits : ℤ) ∧
        b.heldPower = heldExponent sign digits := by
    cases hb : b.exponent with
    | none => exact ⟨false, 0, by simp [power, hb], by simp [heldPower, heldExponent, hb]⟩
    | some e => exact ⟨e.1, Nat.ofDigitChars 10 e.2 0, by simp [power, hb], by simp [heldPower, hb]⟩
  rw [held, hheld, Formatter.valueOf_shiftHeld hshort hmultiplier, ← hpower,
    Numeral.ofMagnitude_shift, Numeral.ofMagnitude_shift]
  congr 2
  simp only [mantissa, magnitude]
  congr 1
  ring

end NumberText

namespace Formatter

/-- A pattern multiplies by the power of ten of a percent or per mille sign, if by any. -/
theorem Built.multiplier_le {f : Formatter} (h : f.Built) : f.pattern.multiplier ≤ 3 := by
  have hread {source : String} {p : Pattern} (hp : Pattern.read source = .ok p) :
      p.multiplier ≤ 3 := by
    obtain ⟨positive, _, _, _, _, _, rfl⟩ := Pattern.read_ok_iff.mp hp
    change positive.multipliers.headD 0 ≤ 3
    cases hm : positive.multipliers with
    | nil => exact Nat.zero_le 3
    | cons k _ =>
      have hmem : k ∈ positive.multipliers := by simp [hm]
      obtain ⟨part, _, hpart⟩ := List.mem_filterMap.mp hmem
      cases part <;> simp only [AffixPart.multiplier?, Option.some.injEq, reduceCtorEq] at hpart <;>
        simp [← hpart]
  obtain ⟨locale, ⟨source, h⟩ | h | h⟩ := h
  · exact hread (ofPattern_ok h).1
  · obtain ⟨⟨p, hp, hpattern⟩, _⟩ := currency_ok h
    rw [hpattern]
    change p.multiplier ≤ 3
    exact hread hp
  · exact hread (ofPattern_ok h).1

/-- The sign that a text begins with the prefix of. Of two that fit, the negative one has to be
longer. -/
structure TakesSign (f : Formatter) (text : List Char) (negative : Bool) : Prop where
  front : (f.affixes negative).1 <+: text
  other : (f.affixes !negative).1 <+: text →
    (negative = true ↔ (f.affixes false).1.length < (f.affixes true).1.length)

variable {f : Formatter} {negative : Bool}

theorem existsUnique_takesSign {text : List Char}
    (h : ∃ negative, (f.affixes negative).1 <+: text) :
    ∃! negative, f.TakesSign text negative := by
  by_cases hlonger : (f.affixes false).1.length < (f.affixes true).1.length
  · by_cases hneg : (f.affixes true).1 <+: text
    · refine ⟨true, ⟨hneg, fun _ => by simpa using hlonger⟩, fun sign hsign => ?_⟩
      cases sign with
      | true => rfl
      | false => exact absurd ((hsign.other hneg).mpr hlonger) Bool.false_ne_true
    · have hpos : (f.affixes false).1 <+: text := by
        obtain ⟨sign, hsign⟩ := h
        cases sign with
        | true => exact absurd hsign hneg
        | false => exact hsign
      refine ⟨false, ⟨hpos, fun hother => absurd hother hneg⟩, fun sign hsign => ?_⟩
      cases sign with
      | true => exact absurd hsign.front hneg
      | false => rfl
  · by_cases hpos : (f.affixes false).1 <+: text
    · refine ⟨false, ⟨hpos, fun _ => by simpa using hlonger⟩, fun sign hsign => ?_⟩
      cases sign with
      | true => exact absurd ((hsign.other hpos).mp rfl) hlonger
      | false => rfl
    · have hneg : (f.affixes true).1 <+: text := by
        obtain ⟨sign, hsign⟩ := h
        cases sign with
        | true => exact hsign
        | false => exact absurd hsign hpos
      refine ⟨true, ⟨hneg, fun hother => absurd hother hpos⟩, fun sign hsign => ?_⟩
      cases sign with
      | true => rfl
      | false => exact absurd hsign.front hpos

theorem readSign?_of_takesSign {rest : List Char}
    (h : f.TakesSign ((f.affixes negative).1 ++ rest) negative) :
    f.readSign? ((f.affixes negative).1 ++ rest) = some (negative, rest) := by
  have hown := isPrefixOf?_append (f.affixes negative).1 rest
  have hlength {sign : Bool} {tail : List Char}
      (htail : (f.affixes sign).1.isPrefixOf? ((f.affixes negative).1 ++ rest) = some tail) :
      (f.affixes sign).1.length + tail.length = (f.affixes negative).1.length + rest.length := by
    rw [List.isPrefixOf?_eq_some_iff_append_eq] at htail
    rw [← List.length_append, htail, List.length_append]
  have hfront {sign : Bool} {tail : List Char}
      (htail : (f.affixes sign).1.isPrefixOf? ((f.affixes negative).1 ++ rest) = some tail) :
      (f.affixes sign).1 <+: (f.affixes negative).1 ++ rest :=
    ⟨tail, by rwa [List.isPrefixOf?_eq_some_iff_append_eq] at htail⟩
  unfold readSign?
  cases negative with
  | false =>
    dsimp only
    rw [hown]
    cases hneg : (f.affixes true).1.isPrefixOf? ((f.affixes false).1 ++ rest) with
    | none => rfl
    | some tail =>
      have hlonger := h.other (hfront hneg)
      have hboth := hlength hneg
      simp only [Bool.false_eq_true, false_iff] at hlonger
      dsimp only
      rw [if_neg (by omega)]
  | true =>
    dsimp only
    rw [hown]
    cases hpos : (f.affixes false).1.isPrefixOf? ((f.affixes true).1 ++ rest) with
    | none => rfl
    | some tail =>
      have hlonger := (h.other (hfront hpos)).mp rfl
      have hboth := hlength hpos
      dsimp only
      rw [if_pos (by omega)]

theorem readSign?_eq_none {text : List Char}
    (h : ∀ negative, ¬(f.affixes negative).1 <+: text) : f.readSign? text = none := by
  have hnone (sign : Bool) : (f.affixes sign).1.isPrefixOf? text = none := by
    rw [Option.eq_none_iff_forall_not_mem]
    intro tail htail
    rw [Option.mem_def, List.isPrefixOf?_eq_some_iff_append_eq] at htail
    exact h sign ⟨tail, htail⟩
  simp only [readSign?, hnone]

/-- What is read of a sign and a number has that value. -/
theorem valueOf_denotes {n : Numeral} (hn : n.IsExact) :
    (valueOf n).Denotes n.negative |n.value| := by
  unfold Value.Denotes
  split
  · rename_i hzero
    have hz : n.isZero = true := Numeral.isZero_iff.mpr (abs_eq_zero.mp hzero.2)
    have hc : n.magnitude.coefficient = 0 := Numeral.isZero_iff_coefficient.mp hz
    have hbinary : n.toBinary = (.zero true : Binary .double) := by
      simp [Numeral.toBinary, Binary.ofDecimal, hc, hzero.1]
    unfold valueOf
    split
    · simp [hzero.1, hz, hbinary]
    · rw [hbinary]
  · rename_i hzero
    have hsigned : (if n.negative then -|n.value| else |n.value|) = n.value := by
      rw [Numeral.abs_value, Numeral.value]
    rw [hsigned]
    exact valueOf_isReading hn fun hneg hvalue => hzero ⟨hneg, by rw [hvalue, abs_zero]⟩

/-- How a text is read that begins with the prefix of a sign and, behind it, with the number `b`:
the error stands behind the prefix if there is no digit, or behind the number if the suffix does not
follow. The rest of the text does not matter, and neither would exponents of 32 bits. -/
structure ReadsAs (f : Formatter) (text : String) (negative : Bool) (b : NumberText)
    (tail : List Char) : Prop where
  no_digits : f.read text = .error (.unparseable text (f.affixes negative).1.length) ↔ b.digits = []
  no_suffix : b.digits ≠ [] → (f.read text =
    .error (.unparseable text ((f.affixes negative).1.length + (b.text f.symbols).length)) ↔
      ¬(f.affixes negative).2 <+: tail)
  value : b.digits ≠ [] → (f.affixes negative).2 <+: tail → ∃ v, f.read text = .ok v ∧
    (∀ w : Value, w.Denotes negative (b.value / 10 ^ f.pattern.multiplier) ↔ w = v) ∧
    (text.length < 2 ^ 29 → valueOf (b.held f negative) = v)

variable {text : String} {b : NumberText} {tail : List Char}

theorem readChars_longest (hs : f.symbols.Regular)
    (hnan : ¬f.symbols.nan.toList <+: (f.affixes negative).1 ++ (b.text f.symbols ++ tail))
    (hsign : f.TakesSign ((f.affixes negative).1 ++ (b.text f.symbols ++ tail)) negative)
    (hinfinity : ¬f.symbols.infinity.toList <+: b.text f.symbols ++ tail)
    (hb : b.IsLongest f (b.text f.symbols ++ tail)) :
    f.readChars ((f.affixes negative).1 ++ (b.text f.symbols ++ tail)) =
      if b.digits = [] then .error (b.text f.symbols ++ tail)
      else if (f.affixes negative).2 <+: tail then
        .ok (valueOf ((Numeral.ofMagnitude negative b.magnitude).shift (-f.pattern.multiplier)))
      else .error tail := by
  have hnone : f.symbols.infinity.toList.isPrefixOf? (b.text f.symbols ++ tail) = none := by
    rw [Option.eq_none_iff_forall_not_mem]
    intro rest hrest
    rw [Option.mem_def, List.isPrefixOf?_eq_some_iff_append_eq] at hrest
    exact hinfinity ⟨rest, hrest⟩
  unfold readChars
  rw [if_neg (fun h => hnan (List.isPrefixOf_iff_prefix.mp h)), readSign?_of_takesSign hsign]
  simp only [hnone, readMagnitude?_longest hs hb]
  by_cases hdigits : b.digits = []
  · simp only [if_pos hdigits]
  · simp only [if_neg hdigits, List.isPrefixOf_iff_prefix]

theorem valueOf_magnitude_denotes (f : Formatter) (negative : Bool) (b : NumberText) :
    (valueOf ((Numeral.ofMagnitude negative b.magnitude).shift (-f.pattern.multiplier))).Denotes
      negative (b.value / 10 ^ f.pattern.multiplier) := by
  have hdenotes := valueOf_denotes (Numeral.shift_isExact
    (Numeral.ofMagnitude_isExact negative b.magnitude) (-f.pattern.multiplier))
  have hvalue : |((Numeral.ofMagnitude negative b.magnitude).shift
      (-f.pattern.multiplier)).value| = b.value / 10 ^ f.pattern.multiplier := by
    rw [Numeral.value_shift, abs_mul, abs_of_pos (ten_zpow_pos _), Numeral.abs_value,
      Numeral.magnitude_ofMagnitude, Magnitude.value_strip, NumberText.value_magnitude, zpow_neg,
      zpow_natCast, div_eq_mul_inv]
  rwa [hvalue, Numeral.negative_shift, Numeral.negative_ofMagnitude] at hdenotes

theorem readsAs_longest (hf : f.Built) (hnan : ¬f.symbols.nan.toList <+: text.toList)
    (hsign : f.TakesSign text.toList negative)
    (htext : text.toList = (f.affixes negative).1 ++ (b.text f.symbols ++ tail))
    (hinfinity : ¬f.symbols.infinity.toList <+: b.text f.symbols ++ tail)
    (hb : b.IsLongest f (b.text f.symbols ++ tail)) : f.ReadsAs text negative b tail := by
  have hlength : text.toList.length =
      (f.affixes negative).1.length + ((b.text f.symbols).length + tail.length) := by
    rw [htext, List.length_append, List.length_append]
  have hchars := readChars_longest hf.regular (htext ▸ hnan) (htext ▸ hsign) hinfinity hb
  rw [← htext] at hchars
  by_cases hdigits : b.digits = []
  · have hread : f.read text = .error (.unparseable text (f.affixes negative).1.length) := by
      rw [read, hchars, if_pos hdigits]
      dsimp only
      rw [hlength, List.length_append, Nat.add_sub_cancel_right]
    exact ⟨iff_of_true hread hdigits, absurd hdigits, absurd hdigits⟩
  rw [if_neg hdigits] at hchars
  have hpos : 0 < (b.text f.symbols).length :=
    lt_of_lt_of_le (List.length_pos_iff_ne_nil.mpr hdigits) (b.digits_length_le f.symbols)
  by_cases hsuffix : (f.affixes negative).2 <+: tail
  · have hread : f.read text = .ok
        (valueOf ((Numeral.ofMagnitude negative b.magnitude).shift (-f.pattern.multiplier))) := by
      rw [read, hchars, if_pos hsuffix]
    refine ⟨by simp [hread, hdigits], fun _ => by simp [hread, hsuffix], fun _ _ => ?_⟩
    refine ⟨_, hread, fun w => ?_, fun hshort => ?_⟩
    · have hdenotes := f.valueOf_magnitude_denotes negative b
      exact ⟨fun hw => hw.unique hdenotes, fun hw => hw ▸ hdenotes⟩
    · have hdigitsShort : b.digits.length < 2 ^ 29 := by
        have hle := b.digits_length_le f.symbols
        rw [← String.length_toList] at hshort
        omega
      exact NumberText.valueOf_held hb.conforms
        (lt_of_le_of_lt hf.multiplier_le (by norm_num)) hdigitsShort negative
  · have hread : f.read text = .error
        (.unparseable text ((f.affixes negative).1.length + (b.text f.symbols).length)) := by
      rw [read, hchars, if_neg hsuffix]
      dsimp only
      rw [hlength, ← Nat.add_assoc, Nat.add_sub_cancel_right]
    refine ⟨iff_of_false ?_ hdigits, fun _ => iff_of_true hread hsuffix,
      fun _ h => absurd h hsuffix⟩
    rw [hread]
    intro hsame
    simp only [Except.error.injEq, FormatError.unparseable.injEq, true_and] at hsame
    omega

/-- A text is read by the longest number that stands behind the prefix of its sign. -/
theorem read_longest (hf : f.Built) (hnan : ¬f.symbols.nan.toList <+: text.toList) :
    ((∀ negative, ¬(f.affixes negative).1 <+: text.toList) →
      f.read text = .error (.unparseable text 0)) ∧
    ((∃ negative, (f.affixes negative).1 <+: text.toList) →
      ∃! negative, f.TakesSign text.toList negative) ∧
    ∀ negative rest, f.TakesSign text.toList negative →
      text.toList = (f.affixes negative).1 ++ rest → ¬f.symbols.infinity.toList <+: rest →
      (∃ b : NumberText, b.IsLongest f rest) ∧
      ∀ (b : NumberText) (tail : List Char), b.IsLongest f rest →
        rest = b.text f.symbols ++ tail → f.ReadsAs text negative b tail := by
  refine ⟨fun hnone => ?_, existsUnique_takesSign, fun negative rest hsign htext hinfinity =>
    ⟨NumberText.exists_isLongest f rest, fun b tail hb hrest => ?_⟩⟩
  · have hchars : f.readChars text.toList = .error text.toList := by
      rw [readChars, if_neg (fun h => hnan (List.isPrefixOf_iff_prefix.mp h)),
        readSign?_eq_none hnone]
    rw [read, hchars]
    dsimp only
    rw [Nat.sub_self]
  · subst hrest
    exact readsAs_longest hf hnan hsign htext hinfinity hb

/-- A text that is nothing but a number is its own longest one. -/
theorem read_longest_grouped :
    accounting.Built ∧ ¬accounting.symbols.nan.toList <+: "1,234.5E2".toList ∧
      ∃ b : NumberText, b.digits = "12345".toList ∧ b.places = 1 ∧ b.power = 2 ∧
        b.text accounting.symbols = "1,234.5E2".toList ∧
        accounting.ReadsAs "1,234.5E2" false b [] := by
  have hnan : ¬accounting.symbols.nan.toList <+: "1,234.5E2".toList := by decide
  have hsign : accounting.TakesSign "1,234.5E2".toList false := ⟨by decide, by decide⟩
  let b : NumberText := ⟨"1,234".toList, some ['5'], some (false, ['2'])⟩
  have htext : b.text accounting.symbols = "1,234.5E2".toList := by decide
  have hconforms : b.Conforms accounting := by
    refine ⟨List.all_iff_forall_prop.mp (by decide), ?_, ?_⟩
    · rintro _ ⟨⟩
      exact List.forall_mem_singleton.mpr (by decide)
    · rintro _ ⟨⟩
      exact ⟨by decide, by decide, List.forall_mem_singleton.mpr (by decide)⟩
  have hlongest : b.IsLongest accounting "1,234.5E2".toList :=
    ⟨hconforms, htext ▸ List.prefix_rfl, fun _ _ hfront => htext ▸ hfront.length_le⟩
  exact ⟨accounting_built, hnan, b, by decide, rfl, by decide, htext,
    ((read_longest accounting_built hnan).2.2 false "1,234.5E2".toList hsign rfl (by decide)).2 b []
      hlongest (by rw [htext, List.append_nil])⟩

end Formatter

end Reckoner
