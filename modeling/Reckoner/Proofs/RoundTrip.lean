import Reckoner.Proofs.Affixes
import Reckoner.Proofs.BinaryNearest

namespace Reckoner

/-- What a number is read as: a long where one holds it, the nearest double elsewhere. -/
def Value.IsReading (r : ℚ) : Value → Prop
  | long n => r = n.toInt
  | double x => x.IsNearest r ∧ ∀ n : Int64, r ≠ n.toInt
  | _ => False

theorem Value.IsReading.eq_long {v : Value} {n : Int64} (h : v.IsReading n.toInt) :
    v = .long n := by
  cases v with
  | long m =>
    have hm : n.toInt = m.toInt := by exact_mod_cast (show (n.toInt : ℚ) = m.toInt from h)
    rw [Int64.toInt_inj.mp hm]
  | double x => exact absurd rfl (h.2 n)
  | _ => exact h.elim

namespace Numeral

theorem value_of_whole? {n : Numeral} {k : ℤ} (h : n.whole? = some k) : n.value = k := by
  unfold whole? at h
  dsimp only at h
  split at h
  · rename_i hrange
    rw [Option.some.injEq] at h
    subst h
    rw [value, Magnitude.value, ten_zpow_split hrange.1]
    split <;> simp
  · simp at h

/-- Whole numbers of a long have no more zeros at their end than are looked for. -/
theorem whole?_of_value {n : Numeral} (hn : n.IsExact) {k : ℤ} (hk : k.natAbs < 10 ^ 20)
    (h : n.value = k) : n.whole? = some k := by
  have habs : n.magnitude.value = (k.natAbs : ℕ) := by
    rw [← abs_value, h, Nat.cast_natAbs, Int.cast_abs]
  have hlow : 0 ≤ n.magnitude.exponent := hn.stripped.whole_iff.mp ⟨_, habs⟩
  have hhigh : n.magnitude.exponent < (20 : ℕ) := by
    apply hn.stripped.exponent_lt (by decide)
    rw [habs]
    exact_mod_cast hk
  have hwhole : ∃ j, n.whole? = some j := by
    unfold whole?
    dsimp only
    rw [if_pos ⟨hlow, by omega⟩]
    exact ⟨_, rfl⟩
  obtain ⟨j, hj⟩ := hwhole
  have hjk : (j : ℚ) = k := by rw [← value_of_whole? hj, h]
  rw [hj, Int.cast_inj.mp hjk]

theorem toBinary_isNearest {g : BinaryFormat} {n : Numeral}
    (hsign : n.negative = true → n.value ≠ 0) : (n.toBinary : Binary g).IsNearest n.value := by
  have hdecide : n.negative = decide (n.value < 0) := by
    rw [← negative_iff]
    cases hneg : n.negative with
    | false => rfl
    | true =>
      have hz : n.isZero = false :=
        Bool.eq_false_iff.mpr (fun hz => hsign hneg (isZero_iff.mp hz))
      simp [hz]
  rw [Binary.IsNearest, ← hdecide, abs_value]
  exact Binary.ofDecimal_rounds n.negative n.magnitude

end Numeral

namespace Formatter

/-- A number is read as its value if it is not a negative zero. -/
theorem valueOf_isReading {n : Numeral} (hn : n.IsExact) (hsign : n.negative = true → n.value ≠ 0) :
    (valueOf n).IsReading n.value := by
  unfold valueOf
  split
  · rename_i w hw
    obtain ⟨k, hk, hword⟩ := Option.bind_eq_some_iff.mp hw
    have hvalue : n.value = w.toInt := by
      rw [Numeral.value_of_whole? hk, int64?_eq_some_iff.mp hword]
    split
    · rename_i hzero
      rw [Bool.and_eq_true] at hzero
      exact absurd (Numeral.isZero_iff.mp hzero.2) (hsign hzero.1)
    · exact hvalue
  · rename_i hnone
    refine ⟨Numeral.toBinary_isNearest hsign, ?_⟩
    intro w hvalue
    have hbound : w.toInt.natAbs < 10 ^ 20 := by
      have hlow := Int64.le_toInt w
      have hhigh := Int64.toInt_lt w
      omega
    rw [Numeral.whole?_of_value hn hbound hvalue, Option.bind_some, int64?_eq_some_iff.mpr rfl]
      at hnone
    simp at hnone

variable {f : Formatter}

/-- The number that is left of a number after writing: scaled, rounded and scaled back. -/
def kept (f : Formatter) (x : ℚ) : ℚ :=
  f.rounded (x * 10 ^ f.pattern.multiplier) / 10 ^ f.pattern.multiplier

theorem value_read {negative : Bool} {m : Magnitude} {q : ℚ} (hm : m.value = |q|)
    (hsign : negative = decide (q < 0)) :
    ((Numeral.ofMagnitude negative m).shift (-f.pattern.multiplier)).value =
      q / 10 ^ f.pattern.multiplier := by
  rw [Numeral.value_shift, Numeral.value_ofMagnitude, hm, hsign, zpow_neg, zpow_natCast,
    ← div_eq_mul_inv]
  by_cases hq : q < 0
  · simp [hq, abs_of_neg]
  · simp [hq, abs_of_nonneg (not_lt.mp hq)]

theorem kept_of_whole (hplain : f.pattern.exponentDigits = none) (k : ℤ) : f.kept k = k := by
  have hplaces : (-f.pattern.maxFraction : ℤ) ≤ f.pattern.multiplier := by omega
  have hmultiple := roundedTo_of_le hplaces k
  rw [zpow_natCast] at hmultiple
  rw [kept, rounded, hplain]
  dsimp only
  rw [hmultiple, mul_div_cancel_right₀ _ (pow_ne_zero _ (by norm_num))]

/-- What is read with the sign of a rounded number is that number, scaled back. -/
theorem valueOf_isReading_kept {x : ℚ} {m : Magnitude}
    (hm : m.value = |f.rounded (x * 10 ^ f.pattern.multiplier)|) :
    (valueOf ((Numeral.ofMagnitude (decide (f.rounded (x * 10 ^ f.pattern.multiplier) < 0)) m).shift
      (-f.pattern.multiplier))).IsReading (f.kept x) := by
  rw [kept, ← value_read (f := f) hm rfl]
  refine valueOf_isReading (Numeral.shift_isExact (Numeral.ofMagnitude_isExact _ _) _) ?_
  intro hneg
  rw [Numeral.negative_shift, Numeral.negative_ofMagnitude, decide_eq_true_eq] at hneg
  rw [value_read hm rfl]
  exact div_ne_zero hneg.ne (pow_ne_zero _ (by norm_num))

theorem exists_read_writeNumeral (hf : f.Built) (ha : f.Separate)
    (hsigns : (f.affixes false).1 ≠ (f.affixes true).1) {n : Numeral} (hn : n.IsExact) {x : ℚ}
    (hvalue : n.value = x * 10 ^ f.pattern.multiplier) :
    ∃ w, f.read (f.writeNumeral n) = .ok w ∧ w.IsReading (f.kept x) := by
  obtain ⟨m, hm, hread⟩ := read_writeNumeral hf.regular ha hn
  rw [hvalue] at hm hread
  simp only [bne_iff_ne.mpr hsigns, Bool.and_true, List.prefix_rfl, if_true] at hread
  exact ⟨_, hread, valueOf_isReading_kept hm⟩

theorem exists_read_write (hf : f.Built) (ha : f.Separate)
    (hsigns : (f.affixes false).1 ≠ (f.affixes true).1) {v : Value} {x : ℚ}
    (hv : v.number? = some x) :
    ∃ text w, f.write? v = some text ∧ f.read text = .ok w ∧ w.IsReading (f.kept x) := by
  obtain ⟨n, hn, hvalue, hwrite⟩ := write?_of_number? (f := f) hv
  obtain ⟨w, hread, hw⟩ := exists_read_writeNumeral hf ha hsigns hn hvalue
  exact ⟨_, w, hwrite, hread, hw⟩

/-- Writing and then reading gives the number as the pattern rounds it; through a plain pattern
every long comes back. -/
theorem read_write (hf : f.Built) (ha : f.Separate)
    (hsigns : (f.affixes false).1 ≠ (f.affixes true).1) :
    (∀ v x, v.number? = some x →
      ∃ text w, f.write? v = some text ∧ f.read text = .ok w ∧ w.IsReading (f.kept x)) ∧
    (f.pattern.exponentDigits = none →
      ∀ n : Int64, ∃ text, f.write? (.long n) = some text ∧ f.read text = .ok (.long n)) := by
  constructor
  · intro v x hv
    exact exists_read_write hf ha hsigns hv
  · intro hplain n
    obtain ⟨text, w, hwrite, hread, hw⟩ := exists_read_write hf ha hsigns
      (show (Value.long n).number? = some n.toInt from rfl)
    rw [kept_of_whole hplain] at hw
    rw [hw.eq_long] at hread
    exact ⟨text, hwrite, hread⟩

theorem read_write_accounting :
    accounting.Built ∧ accounting.Separate ∧
      (accounting.affixes false).1 ≠ (accounting.affixes true).1 ∧
      (∀ v x, v.number? = some x → ∃ text w, accounting.write? v = some text ∧
        accounting.read text = .ok w ∧ w.IsReading (accounting.kept x)) ∧
      (accounting.pattern.exponentDigits = none → ∀ n : Int64, ∃ text,
        accounting.write? (.long n) = some text ∧ accounting.read text = .ok (.long n)) := by
  have hsigns : (accounting.affixes false).1 ≠ (accounting.affixes true).1 := by decide
  exact ⟨accounting_built, accounting_separate, hsigns,
    read_write accounting_built accounting_separate hsigns⟩

end Formatter

end Reckoner
