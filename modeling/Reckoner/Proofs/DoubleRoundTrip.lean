import Reckoner.Proofs.RoundTrip
import Reckoner.Proofs.ShortestText

namespace Reckoner

namespace Binary

theorem mul_of_units_eq {f : BinaryFormat} (x : Binary f) {one : Fin f.ranks} (hne : one.val ≠ 0)
    (hone : f.units one = f.scale) : x.mul (finite false one) = x := by
  cases x with
  | nan sign => rfl
  | infinite sign => simp [mul, hne, isNegative]
  | finite sign rank =>
    rw [mul, isNegative, isNegative, Bool.bne_false, hone]
    exact (ofUnits_of_units sign f.scale_pos rfl).trans (dif_pos rank.isLt)

/-- A pattern without a multiplier leaves a double as it is. -/
theorem mul_one (x : Double) : x.mul (ofDecimal false 1 0) = x := by
  have hone : (ofDecimal false 1 0 : Double) = finite false ⟨1023 * 2 ^ 52, by decide⟩ := by
    decide +kernel
  rw [hone]
  exact x.mul_of_units_eq (by decide) (by decide +kernel)

/-- How many digits the shortest text of a number has after its point. -/
def places {f : BinaryFormat} (x : Binary f) : ℕ :=
  (Digits.splitPoint x.plain.toList).2.length

theorem places_finite {f : BinaryFormat} (sign : Bool) (rank : Fin f.ranks) :
    (finite sign rank).places = (-(f.shortest rank).exponent).toNat :=
  Numeral.length_splitPoint_signed _ _

/-- What is nearest to the shortest text of a double equals that double; a zero may lose its
sign. -/
theorem IsNearest.compare?_eq {q : ℚ} {y : Double} (hy : y.IsNearest q) {sign : Bool}
    {rank : Fin BinaryFormat.double.ranks}
    (hq : q = (Numeral.ofMagnitude sign (BinaryFormat.double.shortest rank)).value) :
    y.compare? (finite sign rank) = some .eq := by
  have habs : |q| = (BinaryFormat.double.shortest rank).value := by
    rw [hq, Numeral.abs_value, Numeral.magnitude_ofMagnitude, Magnitude.value_strip]
  have hrank : (finite (decide (q < 0)) rank : Double).IsNearest q := by
    refine ⟨rfl, ?_⟩
    rw [habs]
    exact BinaryFormat.double.shortest_isNearestRank rank
  rw [hy.unique hrank]
  have hsigned : (finite (decide (q < 0)) rank : Double).signedMagnitude =
      (finite sign rank : Double).signedMagnitude := by
    by_cases hzero : rank.val = 0
    · simp [signedMagnitude, magnitude, hzero]
    · have hpos : 0 < (BinaryFormat.double.shortest rank).value := by
        have hunit := BinaryFormat.double.value_strictMono Nat.one_pos
        rw [BinaryFormat.value_zero] at hunit
        linarith [BinaryFormat.le_shortest hzero]
      have hsame : decide (q < 0) = sign := by
        rw [hq, Numeral.value_ofMagnitude]
        cases sign <;> simp [hpos, hpos.le]
      rw [hsame]
  simp [compare?, isNaN, hsigned]

end Binary

namespace Numeral

/-- A number as its digits say, whatever double they stand for. -/
def settled (n : Numeral) : Numeral :=
  { n with source := .eq }

/-- Rounding again to the same places changes nothing. -/
theorem round_settled (n : Numeral) (places : ℕ) :
    (n.round places).settled.round places = (n.round places).settled :=
  round_of_length_le (n.length_fractionDigits_round places)

theorem settled_isExact (n : Numeral) : n.settled.IsExact :=
  ⟨n.stripped, rfl⟩

end Numeral

/-- What a number is read as has the nearest double of that number. -/
theorem Value.IsReading.double? {q : ℚ} {w : Value} (h : w.IsReading q) :
    ∃ y, w.double? = some y ∧ y.IsNearest q := by
  cases w with
  | long k =>
    obtain rfl := h
    exact ⟨_, rfl, Binary.ofInt_isNearest _⟩
  | double x => exact ⟨x, rfl, h.1⟩
  | _ => exact h.elim

theorem Value.IsReading.long_iff {q : ℚ} {w : Value} (h : w.IsReading q) :
    (∃ k, w = .long k) ↔ ∃ k : Int64, q = k.toInt := by
  constructor
  · rintro ⟨k, rfl⟩
    exact ⟨k, h⟩
  · rintro ⟨k, rfl⟩
    exact ⟨k, h.eq_long⟩

namespace Formatter

variable {f : Formatter}

/-- What a double is read as after it was written. A number that keeps all digits of its shortest
text comes back; it is a long if that text is one. -/
structure Restores (f : Formatter) (x : Double) (w : Value) : Prop where
  nan : x.isNaN → w = .double (.nan false)
  infinite : ∀ sign, x = .infinite sign → w = .double x
  equal : x.isFinite → x.places ≤ f.pattern.maxFraction →
    ∃ y, w.double? = some y ∧ y.compare? x = some .eq
  long : x.isFinite → x.places ≤ f.pattern.maxFraction →
    ((∃ k, w = .long k) ↔
      ∃ n, ∃ k : Int64, Numeral.ofPlain? x.plain.toList = some n ∧ n.value = k.toInt)

/-- Rounding to the places of the pattern settles the text. -/
theorem writeNumeral_settled (hplain : f.pattern.exponentDigits = none) (n : Numeral) :
    f.writeNumeral (n.round f.pattern.maxFraction).settled = f.writeNumeral n := by
  have hbody : f.body (n.round f.pattern.maxFraction).settled = f.body n := by
    simp only [body, hplain, Numeral.round_settled]
    simp only [Numeral.settled, Numeral.negative_round]
    rfl
  rw [writeNumeral, hbody, writeNumeral]

/-- A number without more digits than the pattern has places is kept. -/
theorem kept_of_round (hmultiplier : f.pattern.multiplier = 0)
    (hplain : f.pattern.exponentDigits = none) {n : Numeral} (hn : n.IsExact)
    (hround : n.round f.pattern.maxFraction = n) : f.kept n.value = n.value := by
  have hvalue := Numeral.value_round hn.source f.pattern.maxFraction
  rw [hround] at hvalue
  simp [kept, rounded, hplain, hmultiplier, ← hvalue]

theorem read_nan (f : Formatter) : f.read f.symbols.nan = .ok (.double (.nan false)) := by
  have hprefix : f.symbols.nan.toList.isPrefixOf f.symbols.nan.toList = true :=
    List.isPrefixOf_iff_prefix.mpr List.prefix_rfl
  rw [read, readChars, if_pos hprefix]

theorem read_infinite (hf : f.Built) (ha : f.Separate)
    (hinfinity : ∀ negative, ¬f.symbols.infinity.toList <:+: (f.affixes negative).1)
    (hsigns : (f.affixes false).1 ≠ (f.affixes true).1) (negative : Bool) :
    f.read (f.withAffixes negative f.symbols.infinity.toList) =
      .ok (.double (.infinite negative)) := by
  obtain ⟨locale, hsymbols⟩ := hf.symbols
  obtain ⟨c, hsymbol, hnan⟩ := locale.conventions_infinity
  rw [← hsymbols] at hsymbol hnan
  have hc : ∀ sign, c ∉ (f.affixes sign).1 := by
    intro sign hmem
    apply hinfinity sign
    rw [hsymbol]
    obtain ⟨before, after, happend⟩ := List.append_of_mem hmem
    exact ⟨before, after, by rw [happend, List.append_assoc, List.singleton_append]⟩
  have hfront : ¬f.symbols.nan.toList.isPrefixOf
      ((f.affixes negative).1 ++ c :: (f.affixes negative).2) = true := by
    intro hprefix
    exact ha.nan negative (prefix_of_append_cons (List.isPrefixOf_iff_prefix.mp hprefix) hnan)
  have hsuffix : (f.affixes negative).2.isPrefixOf (f.affixes negative).2 = true :=
    List.isPrefixOf_iff_prefix.mpr List.prefix_rfl
  have hown := isPrefixOf?_append [c] (f.affixes negative).2
  rw [List.singleton_append] at hown
  have hchars : f.readChars ((f.affixes negative).1 ++ c :: (f.affixes negative).2) =
      .ok (.double (.infinite negative)) := by
    rw [readChars, if_neg hfront, readSign?_append hc, bne_iff_ne.mpr hsigns, Bool.and_true]
    simp only [hsymbol, hown, hsuffix, if_true]
  rw [read, withAffixes, String.toList_ofList, hsymbol, List.append_assoc, List.singleton_append,
    hchars]

theorem writeDouble?_eq (hmultiplier : f.pattern.multiplier = 0) (x : Double) :
    f.writeDouble? x =
      match x with
      | .nan _ => some f.symbols.nan
      | .infinite negative => some (f.withAffixes negative f.symbols.infinity.toList)
      | .finite negative rank => (Numeral.ofRank? negative rank).map f.writeNumeral := by
  rw [writeDouble?, hmultiplier, Nat.cast_zero, x.mul_one]
  cases x <;> rfl

/-- A finite double is read as the number that is left of its digits. -/
theorem exists_read_finite (hf : f.Built) (ha : f.Separate)
    (hsigns : (f.affixes false).1 ≠ (f.affixes true).1) (hmultiplier : f.pattern.multiplier = 0)
    (hplain : f.pattern.exponentDigits = none) (n : Numeral) :
    ∃ w, f.read (f.writeNumeral n) = .ok w ∧
      w.IsReading (n.round f.pattern.maxFraction).value := by
  have hexact := (n.round f.pattern.maxFraction).settled_isExact
  obtain ⟨w, hread, hw⟩ := exists_read_writeNumeral hf ha hsigns hexact
    (x := (n.round f.pattern.maxFraction).settled.value) (by rw [hmultiplier, pow_zero, mul_one])
  rw [kept_of_round hmultiplier hplain hexact (n.round_settled _)] at hw
  rw [writeNumeral_settled hplain] at hread
  exact ⟨w, hread, hw⟩

theorem exists_restores_finite (hf : f.Built) (ha : f.Separate)
    (hsigns : (f.affixes false).1 ≠ (f.affixes true).1) (hmultiplier : f.pattern.multiplier = 0)
    (hplain : f.pattern.exponentDigits = none) (sign : Bool)
    (rank : Fin BinaryFormat.double.ranks) :
    ∃ text w, f.write? (.double (.finite sign rank)) = some text ∧ f.read text = .ok w ∧
      f.Restores (.finite sign rank) w := by
  obtain ⟨n, hn, hsign, hmagnitude, -⟩ := Numeral.exists_ofRank? sign rank
  have hnumber : n.settled.value =
      (Numeral.ofMagnitude sign (BinaryFormat.double.shortest rank)).value := by
    rw [Numeral.value_ofMagnitude, ← hmagnitude, ← hsign]
    rfl
  obtain ⟨w, hread, hw⟩ := exists_read_finite hf ha hsigns hmultiplier hplain n
  have hwrite : f.write? (.double (.finite sign rank)) = some (f.writeNumeral n) := by
    rw [write?, writeDouble?_eq hmultiplier]
    simp only [hn, Option.map_some]
  have hkept : (Binary.finite sign rank).places ≤ f.pattern.maxFraction →
      w.IsReading (Numeral.ofMagnitude sign (BinaryFormat.double.shortest rank)).value := by
    intro hplaces
    rw [Binary.places_finite, ← hmagnitude, ← Numeral.length_fractionDigits] at hplaces
    rw [Numeral.round_of_length_le hplaces] at hw
    rw [← hnumber]
    exact hw
  refine ⟨_, w, hwrite, hread, ?_⟩
  constructor
  · intro hnan
    cases hnan
  · intro infinite hinfinite
    cases hinfinite
  · intro _ hplaces
    obtain ⟨y, hy, hnearest⟩ := (hkept hplaces).double?
    exact ⟨y, hy, hnearest.compare?_eq rfl⟩
  · intro _ hplaces
    rw [(hkept hplaces).long_iff, Binary.plain, Binary.render, Numeral.ofPlain?_signed]
    simp

/-- Writing and then reading gives a double back if the pattern has places for all digits of its
shortest text. Infinities and NaN come back in any case. -/
theorem read_write_double (hf : f.Built) (ha : f.Separate)
    (hinfinity : ∀ negative, ¬f.symbols.infinity.toList <:+: (f.affixes negative).1)
    (hsigns : (f.affixes false).1 ≠ (f.affixes true).1) (hmultiplier : f.pattern.multiplier = 0)
    (hplain : f.pattern.exponentDigits = none) (x : Double) :
    ∃ text w, f.write? (.double x) = some text ∧ f.read text = .ok w ∧ f.Restores x w := by
  cases x with
  | nan sign =>
    have hwrite : f.write? (.double (.nan sign)) = some f.symbols.nan := by
      rw [write?, writeDouble?_eq hmultiplier]
    refine ⟨_, _, hwrite, f.read_nan, ?_⟩
    constructor <;> simp [Binary.isFinite]
  | infinite sign =>
    have hwrite : f.write? (.double (.infinite sign)) =
        some (f.withAffixes sign f.symbols.infinity.toList) := by
      rw [write?, writeDouble?_eq hmultiplier]
    refine ⟨_, _, hwrite, read_infinite hf ha hinfinity hsigns sign, ?_⟩
    constructor <;> simp [Binary.isFinite, Binary.isNaN]
  | finite sign rank => exact exists_restores_finite hf ha hsigns hmultiplier hplain sign rank

theorem read_write_double_accounting :
    accounting.Built ∧ accounting.Separate ∧
      (∀ negative, ¬accounting.symbols.infinity.toList <:+: (accounting.affixes negative).1) ∧
      (accounting.affixes false).1 ≠ (accounting.affixes true).1 ∧
      accounting.pattern.multiplier = 0 ∧ accounting.pattern.exponentDigits = none ∧
      ∃ text w, accounting.write? (.double (Binary.ofDecimal true 12345 (-1))) = some text ∧
        accounting.read text = .ok w ∧
        accounting.Restores (Binary.ofDecimal true 12345 (-1)) w := by
  have hinfinity : ∀ negative,
      ¬accounting.symbols.infinity.toList <:+: (accounting.affixes negative).1 := by
    decide
  have hsigns : (accounting.affixes false).1 ≠ (accounting.affixes true).1 := by decide
  exact ⟨accounting_built, accounting_separate, hinfinity, hsigns, rfl, rfl,
    read_write_double accounting_built accounting_separate hinfinity hsigns rfl rfl _⟩

end Formatter

end Reckoner
