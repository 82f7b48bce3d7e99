import Reckoner.Proofs.Accumulation

namespace Reckoner

/-- The numbers that decimals hold are those of 96 bits with up to 28 places. -/
theorem Decimal.exists_value_eq_iff {q : ℚ} :
    (∃ d : Decimal, d.value = q) ↔
      ∃ (scale : ℕ) (m : ℤ), scale ≤ 28 ∧ |m| < 2 ^ 96 ∧ q = m * 10 ^ (-scale : ℤ) := by
  constructor
  · rintro ⟨d, rfl⟩
    have hsmall : |d.mantissa| < 2 ^ 96 := by
      rw [Int.abs_eq_natAbs]
      exact_mod_cast d.mantissa_lt
    refine ⟨d.scale, d.mantissa, d.scale_le, hsmall, ?_⟩
    rw [value, zpow_neg, zpow_natCast, div_eq_mul_inv]
  · rintro ⟨scale, m, hscale, hsmall, rfl⟩
    have hbits : m.natAbs < Nat.pow 2 96 := by
      rw [Int.abs_eq_natAbs] at hsmall
      exact_mod_cast hsmall
    refine ⟨⟨m, scale, hbits, hscale⟩, ?_⟩
    rw [value, zpow_neg, zpow_natCast, div_eq_mul_inv]

namespace Value

variable {q : ℚ} {v : Value}

/-- A total is a decimal if one holds it, and the nearest double if none does. -/
theorem IsTotal.kind (h : v.IsTotal q) :
    ((∃ d, v = .decimal d) ↔ ∃ d : Decimal, d.value = q) ∧
      (∀ d, v = .decimal d → d.value = q) ∧
      ((¬∃ d : Decimal, d.value = q) → ∃ x : Double, v = .double x ∧ x.IsNearest q) := by
  cases h with
  | decimal exact =>
    refine ⟨iff_of_true ⟨_, rfl⟩ ⟨_, exact⟩, fun d hd => ?_, fun h => absurd ⟨_, exact⟩ h⟩
    obtain rfl := Value.decimal.inj hd
    exact exact
  | double inexact nearest =>
    exact ⟨iff_of_false (by simp) inexact, fun d hd => by simp at hd, fun _ => ⟨_, rfl, nearest⟩⟩

/-- What a value holds exactly is a number that a decimal holds. -/
theorem exists_decimal_of_number? (h : v.number? = some q) :
    ∃ d : Decimal, d.value = q := by
  have hwhole (n : Int64) : ∃ d : Decimal, d.value = n.toInt := by
    have hlow := n.le_toInt
    have hhigh := n.toInt_lt
    refine Decimal.exists_value_eq_iff.mpr ⟨0, n.toInt, Nat.zero_le _, ?_, by simp⟩
    rw [abs_lt]
    omega
  cases v <;> simp only [number?, Option.some.injEq, reduceCtorEq] at h <;> subst h
  case byte n => simpa using hwhole n.toInt64
  case short n => simpa using hwhole n.toInt64
  case integer n => simpa using hwhole n.toInt64
  case long n => exact hwhole n
  case decimal d => exact ⟨d, rfl⟩

/-- What a value holds exactly comes back from its total. -/
theorem number?_ofExact (h : v.number? = some q) :
    ∃ e, v.toExact? = some e ∧ (ofExact e).number? = some q := by
  obtain ⟨e, he, rfl⟩ := toExact?_of_number? h
  obtain ⟨hdecimal, hvalue, -⟩ := (ofExact_isTotal e).kind
  obtain ⟨d, hd⟩ := hdecimal.mpr (exists_decimal_of_number? h)
  exact ⟨e, he, by rw [hd, number?, hvalue d hd]⟩

/-- Totals are wrapped without losing exactness: a total is the decimal of its number, or the
nearest double if no decimal has that number, in whichever form it comes; and the number of a value
that is held exactly comes back. -/
theorem ofExact_lossless :
    (∀ x : Exact,
      ((∃ d, ofExact x = .decimal d) ↔
        ∃ (scale : ℕ) (m : ℤ), scale ≤ 28 ∧ |m| < 2 ^ 96 ∧ x.value = m * 10 ^ (-scale : ℤ)) ∧
      (∀ d, ofExact x = .decimal d → d.value = x.value) ∧
      ((¬∃ d, ofExact x = .decimal d) → ∃ y : Double, ofExact x = .double y ∧ y.IsNearest x.value) ∧
      ∀ other : Exact, other.value = x.value → (ofExact other).SameTotal (ofExact x)) ∧
    ∀ (v : Value) (q : ℚ), v.number? = some q →
      ∃ e, v.toExact? = some e ∧ (ofExact e).number? = some q := by
  refine ⟨fun x => ?_, fun v q hv => number?_ofExact hv⟩
  obtain ⟨hdecimal, hvalue, hdouble⟩ := (ofExact_isTotal x).kind
  refine ⟨hdecimal.trans Decimal.exists_value_eq_iff, hvalue, fun hnone => ?_,
    fun other hother => ?_⟩
  · exact hdouble (mt hdecimal.mpr hnone)
  · have htotal := ofExact_isTotal other
    rw [hother] at htotal
    exact htotal.same (ofExact_isTotal x)

/-- Zeros before the point that a form leaves out are filled in as far as 96 bits reach. -/
theorem ofExact_lossless_zeros :
    (∃ d, ofExact ⟨5, 28⟩ = .decimal d ∧ d.value = 5 * 10 ^ 28) ∧
      (Exact.mk 50 27).value = (Exact.mk 5 28).value ∧
      (ofExact ⟨50, 27⟩).SameTotal (ofExact ⟨5, 28⟩) := by
  have hvalue : (Exact.mk 50 27).value = (Exact.mk 5 28).value := by
    norm_num [Exact.value]
  obtain ⟨hdecimal, hnumber, _, hform⟩ := ofExact_lossless.1 ⟨5, 28⟩
  obtain ⟨d, hd⟩ :=
    hdecimal.mpr ⟨0, 5 * 10 ^ 28, by norm_num, by norm_num, by norm_num [Exact.value]⟩
  refine ⟨⟨d, hd, (hnumber d hd).trans ?_⟩, hvalue, hform _ hvalue⟩
  norm_num [Exact.value]

end Value

end Reckoner
