import Reckoner.Proofs.FixedArity
import Reckoner.Proofs.NumberReading
import Reckoner.Proofs.StoredRounding

namespace Reckoner

namespace BinaryFormat

theorem exists_rank_eq (f : BinaryFormat) {k : ℕ} (hk : k ≤ 2 * f.binade) :
    ∃ rank : Fin f.ranks, f.value rank = k := by
  obtain ⟨rank, hrank⟩ := f.exists_value_eq hk
  have hle : rank ≤ f.unitBits * f.binade + 2 * f.binade := by
    rw [← f.value_strictMono.le_iff_le, hrank, f.value_top]
    exact_mod_cast hk
  have hlast : f.unitBits * f.binade + 2 * f.binade < f.ranks := by
    cases f <;> decide
  exact ⟨⟨rank, hle.trans_lt hlast⟩, hrank⟩

end BinaryFormat

namespace Binary

variable {f : BinaryFormat}

/-- What rounds a magnitude of the format is that magnitude. -/
theorem Rounds.eq_finite {negative : Bool} {x : ℚ} {b : Binary f} (h : b.Rounds negative x)
    {rank : Fin f.ranks} (hrank : f.value rank = x) : b = finite negative rank := by
  refine h.unique (b := finite negative rank) ⟨rfl, ?_⟩
  rw [← hrank]
  exact f.isNearestRank_value rank

theorem exists_ofInt_eq (n : ℤ) (hn : n.natAbs ≤ 2 * f.binade) :
    ∃ rank : Fin f.ranks, (ofInt n : Binary f) = finite (decide (n < 0)) rank ∧
      f.value rank = n.natAbs := by
  obtain ⟨rank, hrank⟩ := f.exists_rank_eq hn
  exact ⟨rank, (ofInt_rounds n).eq_finite hrank, hrank⟩

/-- A whole number is multiplied exactly as far as the significand reaches. -/
theorem exists_mul_eq (n : ℤ) {places : ℕ} (hn : n.natAbs * 10 ^ places ≤ 2 * f.binade)
    (hplaces : 10 ^ places ≤ 2 * f.binade) :
    ∃ rank : Fin f.ranks, (ofInt n : Binary f).mul (ofDecimal false 1 places) =
      finite (decide (n < 0)) rank ∧ f.value rank = (n.natAbs * 10 ^ places : ℕ) := by
  have hone : 0 < 10 ^ places := Nat.pow_pos (by decide)
  obtain ⟨left, hleft, hleftValue⟩ :=
    exists_ofInt_eq (f := f) n ((Nat.le_mul_of_pos_right _ hone).trans hn)
  obtain ⟨right, hrightValue⟩ := f.exists_rank_eq hplaces
  obtain ⟨rank, hrank⟩ := f.exists_rank_eq hn
  have hright : (ofDecimal false 1 places : Binary f) = finite false right := by
    refine (ofDecimal_rounds false ⟨1, places⟩).eq_finite ?_
    rw [hrightValue, Magnitude.value, zpow_natCast]
    simp
  have hproduct : (f.units left * f.units right : ℕ) / (f.scale * f.scale : ℚ) =
      f.value left * f.value right := by
    rw [BinaryFormat.value, BinaryFormat.value, div_mul_div_comm, Nat.cast_mul]
  have hrounds :=
    ofUnits_rounds (f := f) (decide (n < 0)) (f.units left * f.units right) f.scale_pos
  rw [hproduct, hleftValue, hrightValue] at hrounds
  refine ⟨rank, ?_, hrank⟩
  rw [hleft, hright, mul, isNegative, isNegative, Bool.bne_false]
  refine hrounds.eq_finite ?_
  rw [hrank, Nat.cast_mul]

end Binary

namespace Numeral

/-- A double that is a whole number within the significand has the digits of that number, and so no
halfway case to settle. -/
theorem exists_ofRank_whole (negative : Bool) {rank : Fin BinaryFormat.double.ranks} {k : ℕ}
    (hrank : BinaryFormat.double.value rank = k) (hk : k ≤ 2 * BinaryFormat.double.binade) :
    ∃ n, ofRank? negative rank = some n ∧ n.IsExact ∧ n.negative = negative ∧ |n.value| = k := by
  have hvalue := BinaryFormat.value_shortest_of_whole hrank hk
  obtain ⟨n, hn, hsign, hmagnitude, hsource⟩ := exists_ofRank? negative rank
  refine ⟨n, hn, ⟨n.stripped, ?_⟩, hsign, ?_⟩
  · rw [hsource, hvalue, hrank]
    exact compare_eq_iff_eq.mpr rfl
  · rw [abs_value, hmagnitude, hvalue]

end Numeral

namespace Formatter

variable {f : Formatter} {n : ℤ} {v : Value}

/-- The sign of a zero is not written. -/
theorem body_of_isZero {a b : Numeral} (ha : a.IsExact) (hb : b.IsExact) (hzero : a.isZero = true)
    (hzero' : b.isZero = true) : f.body a = f.body b := by
  have hkept {c : Numeral} (hc : c.IsExact) (hz : c.isZero = true) :
      c.magnitude = ⟨0, 0⟩ ∧ c.round f.pattern.maxFraction = c := by
    have hmagnitude := hc.stripped.zero_exponent (Numeral.isZero_iff_coefficient.mp hz)
    refine ⟨hmagnitude, Numeral.round_of_length_le ?_⟩
    rw [Numeral.length_fractionDigits, hmagnitude]
    exact Nat.zero_le _
  obtain ⟨hmagnitude, hround⟩ := hkept ha hzero
  obtain ⟨hmagnitude', hround'⟩ := hkept hb hzero'
  have hplain (groupSize : ℕ) : f.plainBody groupSize a = f.plainBody groupSize b := by
    simp only [plainBody, Numeral.integerDigits_eq, Numeral.fractionDigits_eq, Numeral.abs_value,
      hmagnitude, hmagnitude']
  unfold body mantissa
  cases f.pattern.exponentDigits with
  | none =>
    dsimp only
    rw [hround, hround', hzero, hzero', hplain, Bool.not_true, Bool.and_false, Bool.and_false]
  | some minDigits =>
    dsimp only
    rw [if_pos hzero, if_pos hzero']
    dsimp only
    rw [hzero, hzero', hplain, Bool.not_true, Bool.and_false, Bool.and_false]

/-- What is written depends on the number alone. -/
theorem writeNumeral_congr {a b : Numeral} (ha : a.IsExact) (hb : b.IsExact)
    (hvalue : a.value = b.value) : f.writeNumeral a = f.writeNumeral b := by
  cases hzero : a.isZero with
  | true =>
    have hzero' : b.isZero = true := by
      rw [Numeral.isZero_iff, ← hvalue]
      exact Numeral.isZero_iff.mp hzero
    rw [writeNumeral, body_of_isZero ha hb hzero hzero', writeNumeral]
  | false =>
    have hzero' : b.isZero = false := by
      rw [Bool.eq_false_iff, ne_eq, Numeral.isZero_iff, ← hvalue, ← Numeral.isZero_iff, hzero]
      exact Bool.false_ne_true
    have hsign : a.negative = b.negative := by
      have hneg := Numeral.negative_iff (n := a)
      rw [hvalue, ← Numeral.negative_iff, hzero, hzero'] at hneg
      simpa using hneg
    rw [ha.eq hb hsign (congrArg abs hvalue)]

/-- A whole number is written as the double that it is. -/
theorem writeDouble_ofInt (hf : f.Built) (hn : n.natAbs * 10 ^ f.pattern.multiplier ≤ 2 ^ 53)
    (hv : v.number? = some (n : ℚ)) : f.write? v = some (f.writeDouble (Binary.ofInt n)) := by
  have hbinade : 2 * BinaryFormat.double.binade = 2 ^ 53 := by decide
  have hplaces : 10 ^ f.pattern.multiplier ≤ 2 * BinaryFormat.double.binade := by
    rw [hbinade]
    exact (Nat.pow_le_pow_right (by decide) hf.multiplier_le).trans (by decide)
  rw [← hbinade] at hn
  obtain ⟨rank, hproduct, hrank⟩ := Binary.exists_mul_eq n hn hplaces
  obtain ⟨a, ha, hexact, hsign, hvalue⟩ :=
    Numeral.exists_ofRank_whole (decide (n < 0)) hrank hn
  obtain ⟨b, hb, hbvalue, hwrite⟩ := write?_of_number? (f := f) hv
  have hsame : a.value = b.value := by
    rw [Nat.cast_mul, Nat.cast_natAbs, Int.cast_abs, Nat.cast_pow, Nat.cast_ofNat] at hvalue
    rw [Numeral.value, hsign, ← Numeral.abs_value, hvalue, hbvalue]
    by_cases hneg : n < 0
    · rw [decide_eq_true hneg, if_pos rfl, abs_of_neg (by exact_mod_cast hneg), neg_mul, neg_neg]
    · rw [decide_eq_false hneg, if_neg Bool.false_ne_true,
        abs_of_nonneg (by exact_mod_cast not_lt.mp hneg)]
  have hdouble : f.writeDouble? (Binary.ofInt n) = some (f.writeNumeral a) := by
    rw [writeDouble?, hproduct]
    simp only [ha, Option.map_some]
  rw [hwrite, writeDouble, hdouble, Option.getD_some, writeNumeral_congr hexact hb hsame]

/-- Without an exponent all digits of a whole number are written. -/
theorem writes_ofInt (hf : f.Built) (hplain : f.pattern.exponentDigits = none)
    (hn : n.natAbs * 10 ^ f.pattern.multiplier ≤ 2 ^ 53) (hv : v.number? = some (n : ℚ)) :
    f.Writes (n * 10 ^ f.pattern.multiplier) (f.writeDouble (Binary.ofInt n)) := by
  obtain ⟨text, htext, hwrites⟩ := exists_writes hf hplain hv
  have hwhole :=
    roundedTo_of_le (show (-f.pattern.maxFraction : ℤ) ≤ f.pattern.multiplier by omega) n
  rw [zpow_natCast] at hwhole
  rw [hwhole] at hwrites
  obtain rfl := Option.some.inj (htext.symm.trans (writeDouble_ofInt hf hn hv))
  exact hwrites

end Formatter

namespace Value

variable {n : ℤ} {v : Value}

theorem isNumeric_of_number? {x : ℚ} (h : v.number? = some x) : v.isNumeric = true := by
  cases v <;> simp_all [number?, isNumeric, kind, Kind.isNumeric]

/-- A value that holds a whole number has the nearest double of it, whatever its kind and form. -/
theorem double?_of_number? (h : v.number? = some (n : ℚ)) : v.double? = some (Binary.ofInt n) := by
  cases v <;> simp only [number?, Option.some.injEq, reduceCtorEq, Int.cast_inj] at h
  case decimal d =>
    have hnearest := d.toExact.toBinary_isNearest (f := .double)
    rw [d.value_toExact, h] at hnearest
    exact congrArg some (hnearest.unique (Binary.ofInt_isNearest n))
  all_goals
    subst h
    simp [double?, whole?]

end Value

namespace Evaluator

/-- The exact way of writing a number and the one through doubles agree on the whole numbers that
doubles hold, so that amounts and percentages of them are exact. -/
theorem whole_written_exactly (e : Evaluator) (locale : Locale) {n : ℤ} {v : Value}
    (hv : v.number? = some (n : ℚ)) :
    v.double? = some (Binary.ofInt n) ∧
    (∀ f : Formatter, f.Built → n.natAbs * 10 ^ f.pattern.multiplier ≤ 2 ^ 53 →
      f.write? v = some (f.writeDouble (Binary.ofInt n)) ∧
      f.write? (.double (Binary.ofInt n)) = f.write? v) ∧
    (∃ f, Formatter.currency locale = .ok f ∧
      (n.natAbs * 10 ^ f.pattern.multiplier ≤ 2 ^ 53 → ∃ text,
        f.Writes (n * 10 ^ f.pattern.multiplier) text ∧ f.write? v = some text ∧
        (e.evaluate Builtin.currencyFormat.name [v] locale).result = .ok (.string text))) ∧
    ∃ f, Formatter.percent locale = .ok f ∧
      (n.natAbs * 10 ^ f.pattern.multiplier ≤ 2 ^ 53 → ∃ text,
        f.Writes (n * 10 ^ f.pattern.multiplier) text ∧ f.write? v = some text ∧
        (e.evaluate Builtin.percentFormat.name [v] locale).result = .ok (.string text)) := by
  have hx := Value.double?_of_number? hv
  have hnumeric := Value.isNumeric_of_number? hv
  refine ⟨hx, fun f hf hn => ?_, ?_, ?_⟩
  · have hwrite := Formatter.writeDouble_ofInt hf hn hv
    obtain ⟨text, htext⟩ := f.exists_writeDouble? (Binary.ofInt n)
    refine ⟨hwrite, ?_⟩
    rw [hwrite, Formatter.write?, Formatter.writeDouble, htext, Option.getD_some]
  · obtain ⟨f, hf, hplain⟩ := Formatter.exists_currency locale
    have hbuilt : f.Built := ⟨locale, .inr (.inl hf)⟩
    refine ⟨f, hf, fun hn => ⟨_, Formatter.writes_ofInt hbuilt hplain hn hv,
      Formatter.writeDouble_ofInt hbuilt hn hv, ?_⟩⟩
    rw [evaluate_ofNumber e (by simp [Builtin.ofNumber]) hnumeric]
    exact bind_writeDouble hx hf _
  · obtain ⟨f, hf, hplain⟩ := Formatter.exists_percent locale
    have hbuilt : f.Built := ⟨locale, .inr (.inr hf)⟩
    refine ⟨f, hf, fun hn => ⟨_, Formatter.writes_ofInt hbuilt hplain hn hv,
      Formatter.writeDouble_ofInt hbuilt hn hv, ?_⟩⟩
    rw [evaluate_ofNumber e (by simp [Builtin.ofNumber]) hnumeric]
    exact bind_writeDouble hx hf _

/-- The form of a decimal makes no difference. -/
theorem whole_written_exactly_places :
    let v := Value.decimal ⟨-500, 2, by decide, by decide⟩
    v.number? = some ((-5 : ℤ) : ℚ) ∧ v.double? = some (Binary.ofInt (-5)) ∧
      Formatter.accounting.write? v = some "(5.00)" ∧
      Formatter.accounting.writeDouble (Binary.ofInt (-5)) = "(5.00)" ∧
      (alone.evaluate Builtin.percentFormat.name [v] ⟨"de", none⟩).result =
        .ok (.string "-500\u00a0%") := by
  intro v
  have hv : v.number? = some ((-5 : ℤ) : ℚ) := by
    norm_num [v, Value.number?, Decimal.value]
  obtain ⟨hdouble, hwrite, -, f, hf, hpercent⟩ :=
    alone.whole_written_exactly ⟨"de", none⟩ hv
  have hsize : (-5 : ℤ).natAbs * 10 ^ f.pattern.multiplier ≤ 2 ^ 53 := by
    have hbuilt : f.Built := ⟨_, .inr (.inr hf)⟩
    exact (Nat.mul_le_mul_left 5 (Nat.pow_le_pow_right (by decide) hbuilt.multiplier_le)).trans
      (by decide)
  obtain ⟨text, -, htext, hresult⟩ := hpercent hsize
  have hamount : Formatter.accounting.write? v = some "(5.00)" := by decide +kernel
  have hshown : (Formatter.percent ⟨"de", none⟩).toOption.bind (·.write? v) =
      some "-500\u00a0%" := by
    decide +kernel
  have hsame := (hwrite _ Formatter.accounting_built (by decide)).1
  rw [hf, Except.toOption, Option.bind_some, htext] at hshown
  rw [hamount] at hsame
  rw [Option.some.inj hshown] at hresult
  exact ⟨hv, hdouble, hamount, (Option.some.inj hsame).symm, hresult⟩

end Evaluator

end Reckoner
