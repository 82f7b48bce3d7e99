import Reckoner.Proofs.RoundTrip

namespace Reckoner

/-- A number on one side of zero. -/
def Value.HasSign (negative : Bool) : Value → Prop
  | long n => if negative then n.toInt < 0 else 0 < n.toInt
  | double x => x.isNaN = false ∧ if negative then x.signedMagnitude < 0 else 0 < x.signedMagnitude
  | _ => False

theorem Value.HasSign.not_opposite {v : Value} {negative : Bool} (h : v.HasSign negative) :
    ¬v.HasSign !negative := by
  intro ho
  cases v with
  | long n => cases negative <;> simp_all [HasSign] <;> omega
  | double x => cases negative <;> simp_all [HasSign] <;> omega
  | _ => exact h

/-- The nearest double has the sign of a number that does not round to zero. -/
theorem Value.hasSign_double {r : ℚ} {x : Double} (h : x.IsNearest r)
    (hr : BinaryFormat.double.value 1 < 2 * |r|) :
    (Value.double x).HasSign (decide (r < 0)) := by
  have hrounds : x.Rounds (decide (r < 0)) |r| := h
  obtain ⟨hnan, hsign⟩ := hrounds.isNegative
  have hpos := hrounds.magnitude_pos hr
  refine ⟨hnan, ?_⟩
  rw [Binary.signedMagnitude, hsign]
  split
  · omega
  · omega

theorem Value.IsReading.hasSign {r : ℚ} {v : Value} (h : v.IsReading r) (hr : 1 ≤ |r|) :
    v.HasSign (decide (r < 0)) := by
  cases v with
  | long n =>
    have hn : r = n.toInt := h
    rw [hn] at hr ⊢
    have hne : n.toInt ≠ 0 := by
      intro hz
      norm_num [hz] at hr
    by_cases hneg : n.toInt < 0
    · simp [HasSign, hneg]
    · simp [HasSign, hneg]
      omega
  | double x =>
    have hunit := BinaryFormat.double.value_one_le
    exact hasSign_double h.1 (by linarith)
  | _ => exact h.elim

/-- The number of an integral value is held exactly. -/
theorem Value.number?_of_whole? {v : Value} {n : Int64} (h : v.whole? = some n) :
    v.number? = some n.toInt := by
  cases v <;> simp only [whole?, Option.some.injEq, reduceCtorEq] at h <;> subst h <;>
    simp [number?]

namespace Formatter

/-- Affixes that have no sign of a number in them. -/
def Clear (f : Formatter) : Prop :=
  ∀ negative, ∀ text ∈ [(f.affixes negative).1, (f.affixes negative).2],
    f.symbols.Spares text ∧ ¬f.symbols.exponent.toList <:+: text ∧
      ¬f.symbols.infinity.toList <:+: text ∧ ¬f.symbols.nan.toList <:+: text

variable {f : Formatter}

theorem Clear.separate (h : f.Clear) : f.Separate where
  before negative := (h negative _ (by simp)).1
  nan negative hfront := (h negative _ (by simp)).2.2.2 hfront.isInfix
  after negative c hc :=
    (h negative (f.affixes negative).2 (by simp)).1 c (List.mem_of_mem_head? hc)
  exponent negative hfront := (h negative (f.affixes negative).2 (by simp)).2.1 hfront.isInfix

/-- Rounding by any pattern leaves as much as the multiplier makes of one. -/
theorem le_rounded {x : ℚ} (hx : 10 ^ f.pattern.multiplier ≤ x) :
    10 ^ f.pattern.multiplier ≤ f.rounded x := by
  rw [← zpow_natCast] at hx ⊢
  unfold rounded
  split
  · exact le_roundedTo (by omega) hx
  · have hpos : 0 < x := lt_of_lt_of_le (ten_zpow_pos _) hx
    have hlog : (f.pattern.multiplier : ℤ) ≤ Int.log 10 x :=
      (Int.zpow_le_iff_le_log (b := 10) (by decide) hpos).mp (by exact_mod_cast hx)
    have hlow : (10 : ℚ) ^ Int.log 10 x ≤ x := by
      exact_mod_cast Int.zpow_log_le_self (b := 10) (by decide) hpos
    rw [roundedToDigits, abs_of_pos hpos]
    exact le_trans (zpow_le_zpow_right₀ (by norm_num) hlog)
      (le_roundedTo (by push_cast; omega) hlow)

theorem rounded_neg (x : ℚ) : f.rounded (-x) = -f.rounded x := by
  unfold rounded roundedToDigits
  rw [abs_neg]
  split <;> exact roundedTo_neg _ _

theorem rounded_zero : f.rounded 0 = 0 := by
  have h := rounded_neg (f := f) 0
  rw [neg_zero] at h
  linarith

theorem kept_neg (x : ℚ) : f.kept (-x) = -f.kept x := by
  rw [kept, kept, neg_mul, rounded_neg, neg_div]

theorem one_le_kept {x : ℚ} (hx : 1 ≤ x) : 1 ≤ f.kept x := by
  have hp : (0 : ℚ) < 10 ^ f.pattern.multiplier := by positivity
  rw [kept, le_div_iff₀ hp, one_mul]
  exact le_rounded (le_mul_of_one_le_left hp.le hx)

/-- A whole number keeps its side of zero, and its distance of at least one from it. -/
theorem kept_whole {k : ℤ} (hk : k ≠ 0) : 1 ≤ |f.kept k| ∧ (f.kept k < 0 ↔ k < 0) := by
  rcases lt_or_gt_of_ne hk with hneg | hpos
  · have hone : (1 : ℚ) ≤ ((-k : ℤ) : ℚ) := by exact_mod_cast (show 1 ≤ -k by omega)
    have hkept := one_le_kept (f := f) hone
    rw [Int.cast_neg, kept_neg] at hkept
    exact ⟨le_abs.mpr (Or.inr hkept), iff_of_true (by linarith) hneg⟩
  · have hone : (1 : ℚ) ≤ (k : ℚ) := by exact_mod_cast (show 1 ≤ k by omega)
    have hkept := one_le_kept (f := f) hone
    exact ⟨le_abs.mpr (Or.inl hkept), iff_of_false (by linarith) (by omega)⟩

theorem rounded_neg_iff {k : ℤ} (hk : k ≠ 0) :
    f.rounded (k * 10 ^ f.pattern.multiplier) < 0 ↔ k < 0 := by
  rw [← (kept_whole (f := f) hk).2, kept, div_neg_iff]
  simp [(show (0 : ℚ) < 10 ^ f.pattern.multiplier by positivity).not_gt]

/-- What is read as positive of a number below zero is its opposite. -/
theorem valueOf_isReading_opposite {x : ℚ} {m : Magnitude}
    (hm : m.value = |f.rounded (x * 10 ^ f.pattern.multiplier)|)
    (hneg : f.rounded (x * 10 ^ f.pattern.multiplier) < 0) :
    (valueOf ((Numeral.ofMagnitude false m).shift (-f.pattern.multiplier))).IsReading
      (f.kept (-x)) := by
  have hopposite : f.rounded (-x * 10 ^ f.pattern.multiplier) =
      -f.rounded (x * 10 ^ f.pattern.multiplier) := by
    rw [neg_mul, rounded_neg]
  have hpositive : ¬f.rounded (-x * 10 ^ f.pattern.multiplier) < 0 := by
    rw [hopposite]
    linarith
  have hread := valueOf_isReading_kept (f := f) (x := -x) (m := m)
    (by rw [hopposite, abs_neg, hm])
  rwa [decide_eq_false hpositive] at hread

variable {v : Value} {n : Int64}

theorem read_write_signed (hs : f.symbols.Regular) (ha : f.Separate) (hv : v.whole? = some n)
    (hn : n.toInt ≠ 0) (hsign : 0 < n.toInt ∨ (f.affixes false).1 ≠ (f.affixes true).1) :
    ∃ text w, f.write? v = some text ∧ f.read text = .ok w ∧
      w.HasSign (decide (n.toInt < 0)) := by
  obtain ⟨numeral, hexact, hvalue, hwrite⟩ :=
    write?_of_number? (f := f) (Value.number?_of_whole? hv)
  obtain ⟨m, hm, hread⟩ := read_writeNumeral hs ha hexact
  rw [hvalue] at hm hread
  have hnegative := rounded_neg_iff (f := f) hn
  have hsame : (decide (f.rounded (n.toInt * 10 ^ f.pattern.multiplier) < 0) &&
      (f.affixes false).1 != (f.affixes true).1) =
      decide (f.rounded (n.toInt * 10 ^ f.pattern.multiplier) < 0) := by
    rcases hsign with hpos | hdiffer
    · have hnot : ¬n.toInt < 0 := by omega
      simp [hnegative, hnot]
    · simp [hdiffer]
  simp only [hsame, List.prefix_rfl, if_true] at hread
  obtain ⟨hone, hkept⟩ := kept_whole (f := f) hn
  have hresult := (valueOf_isReading_kept hm).hasSign hone
  rw [decide_eq_decide.mpr hkept] at hresult
  exact ⟨_, _, hwrite, hread, hresult⟩

/-- With equal prefixes a number below zero is read as one above it, or not at all if the suffix of
the positive ones is not there. -/
theorem read_write_unsigned (hs : f.symbols.Regular) (ha : f.Separate) (hv : v.whole? = some n)
    (hneg : n.toInt < 0) (hsame : (f.affixes false).1 = (f.affixes true).1) :
    ∃ text, f.write? v = some text ∧
      if (f.affixes false).2 <+: (f.affixes true).2 then
        ∃ w, f.read text = .ok w ∧ w.HasSign false
      else ∃ e, f.read text = .error e := by
  obtain ⟨numeral, hexact, hvalue, hwrite⟩ :=
    write?_of_number? (f := f) (Value.number?_of_whole? hv)
  obtain ⟨m, hm, hread⟩ := read_writeNumeral hs ha hexact
  rw [hvalue] at hm hread
  have hnegative := (rounded_neg_iff (f := f) hneg.ne).mpr hneg
  simp only [hsame, bne_self_eq_false, Bool.and_false, hnegative, decide_true] at hread
  refine ⟨_, hwrite, ?_⟩
  split
  · rename_i hsuffix
    rw [if_pos hsuffix] at hread
    obtain ⟨hone, hkept⟩ := kept_whole (f := f) hneg.ne
    have hpositive : ¬f.kept (-n.toInt) < 0 := by
      rw [kept_neg]
      have := hkept.mpr hneg
      linarith
    have hresult := (valueOf_isReading_opposite hm hnegative).hasSign
      (by rw [kept_neg, abs_neg]; exact hone)
    rw [decide_eq_false hpositive] at hresult
    exact ⟨_, hread, hresult⟩
  · rename_i hsuffix
    rwa [if_neg hsuffix] at hread

/-- The sign survives just if it is positive or shows before the number already. -/
theorem sign_survives_iff (hf : f.Built) (hclear : f.Clear) (hv : v.whole? = some n)
    (hzero : f.rounded (n.toInt * 10 ^ f.pattern.multiplier) ≠ 0) :
    (∃ text w, f.write? v = some text ∧ f.read text = .ok w ∧
      w.HasSign (decide (n.toInt < 0))) ↔
    0 < n.toInt ∨ (f.affixes false).1 ≠ (f.affixes true).1 := by
  have hn : n.toInt ≠ 0 := by
    intro hn
    rw [hn, Int.cast_zero, zero_mul, rounded_zero] at hzero
    exact hzero rfl
  constructor
  · rintro ⟨text, w, hwrite, hread, hw⟩
    by_contra hsign
    rw [not_or, not_lt, not_not] at hsign
    have hneg : n.toInt < 0 := by omega
    rw [decide_eq_true hneg] at hw
    obtain ⟨text', hwrite', hcases⟩ :=
      read_write_unsigned hf.regular hclear.separate hv hneg hsign.2
    rw [hwrite, Option.some.injEq] at hwrite'
    subst hwrite'
    split at hcases
    · obtain ⟨w', hread', hw'⟩ := hcases
      rw [hread, Except.ok.injEq] at hread'
      subst hread'
      exact hw.not_opposite hw'
    · obtain ⟨e, herror⟩ := hcases
      rw [hread] at herror
      simp at herror
  · intro hsign
    exact read_write_signed hf.regular hclear.separate hv hn hsign

theorem sign_survives_accounting :
    accounting.Built ∧ accounting.Clear ∧ (Value.integer (-5)).whole? = some (-5) ∧
      accounting.rounded ((-5 : Int64).toInt * 10 ^ accounting.pattern.multiplier) ≠ 0 ∧
      ((∃ text w, accounting.write? (.integer (-5)) = some text ∧ accounting.read text = .ok w ∧
        w.HasSign (decide ((-5 : Int64).toInt < 0))) ↔
      0 < (-5 : Int64).toInt ∨ (accounting.affixes false).1 ≠ (accounting.affixes true).1) := by
  have hclear : accounting.Clear := by
    unfold Clear
    decide
  have hzero :
      accounting.rounded ((-5 : Int64).toInt * 10 ^ accounting.pattern.multiplier) ≠ 0 := by
    have hneg := (rounded_neg_iff (f := accounting) (k := (-5 : Int64).toInt) (by decide)).mpr
      (by decide)
    exact hneg.ne
  exact ⟨accounting_built, hclear, rfl, hzero, sign_survives_iff accounting_built hclear rfl hzero⟩

/-- The minus sign of a number below zero stands after it. -/
def trailingMinus : Formatter where
  pattern := {
    source := "0;0-"
    positive := ⟨[], []⟩
    negative := some ⟨[], [.minus]⟩
    minInteger := 1
    maxInteger := 1
    minFraction := 0
    maxFraction := 0
    groupSize := 0
    alwaysPoint := false
    exponentDigits := none
    multiplier := 0 }
  symbols := { Locale.rootSymbols with currency := "$" }

/-- Affixes that differ are not enough: a sign that stands after the number is not seen. -/
theorem trailing_minus_lost :
    ofPattern "0;0-" ⟨"en", some "US"⟩ = .ok trailingMinus ∧
      trailingMinus.affixes false ≠ trailingMinus.affixes true ∧ trailingMinus.Clear ∧
      trailingMinus.write? (.long (-5)) = some "5-" ∧
      trailingMinus.read "5-" = .ok (.long 5) :=
  ⟨rfl, by decide, by unfold Clear; decide, by with_unfolding_all rfl, by with_unfolding_all rfl⟩

end Formatter

end Reckoner
