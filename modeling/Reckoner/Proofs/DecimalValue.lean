import Mathlib.Data.Int.Log
import Mathlib.Data.Rat.Floor
import Mathlib.Tactic.FieldSimp
import Mathlib.Tactic.Linarith
import Mathlib.Tactic.NormNum
import Mathlib.Tactic.Positivity
import Mathlib.Tactic.Ring
import Reckoner.Value.Basic

namespace Reckoner

theorem ten_zpow_pos (e : ℤ) : (0 : ℚ) < 10 ^ e :=
  zpow_pos (by norm_num) e

/-- A power of ten moved from an exponent into a whole factor. -/
theorem ten_zpow_split {e low : ℤ} (h : low ≤ e) :
    (10 : ℚ) ^ e = ((10 ^ (e - low).toNat : ℕ) : ℚ) * 10 ^ low := by
  push_cast
  rw [← zpow_natCast, ← zpow_add₀ (by norm_num)]
  congr 1
  omega

/-- A power of ten as a ratio of whole ones. -/
theorem ten_zpow_ratio (e : ℤ) :
    (10 : ℚ) ^ e = ((10 ^ e.toNat : ℕ) : ℚ) / ((10 ^ (-e).toNat : ℕ) : ℚ) := by
  push_cast
  rw [← zpow_natCast, ← zpow_natCast, ← zpow_sub₀ (by norm_num)]
  congr 1
  omega

theorem decimalLength_pos (n : ℕ) : 0 < decimalLength n :=
  Nat.length_toDigits_pos

theorem lt_ten_pow_decimalLength (n : ℕ) : n < 10 ^ decimalLength n :=
  (Nat.length_toDigits_le_iff (by decide) (decimalLength_pos n)).mp (Nat.le_refl _)

theorem ten_pow_le_of_decimalLength {n : ℕ} (hn : n ≠ 0) : 10 ^ (decimalLength n - 1) ≤ n := by
  by_contra hlt
  rcases Nat.eq_zero_or_pos (decimalLength n - 1) with hone | hpos
  · rw [hone] at hlt
    omega
  · have := (Nat.length_toDigits_le_iff (n := n) (b := 10) (by decide) hpos).mpr (by omega)
    unfold decimalLength at this hpos
    omega

namespace Magnitude

def value (m : Magnitude) : ℚ :=
  m.coefficient * 10 ^ m.exponent

/-- No trailing zeros; zero has the exponent zero. -/
def Stripped (m : Magnitude) : Prop :=
  m = ⟨0, 0⟩ ∨ m.coefficient % 10 ≠ 0

theorem value_nonneg (m : Magnitude) : 0 ≤ m.value :=
  mul_nonneg (Nat.cast_nonneg _) (ten_zpow_pos _).le

theorem value_eq_zero_iff {m : Magnitude} : m.value = 0 ↔ m.coefficient = 0 := by
  simp [value, (ten_zpow_pos m.exponent).ne']

@[simp]
theorem value_strip (m : Magnitude) : m.strip.value = m.value := by
  fun_induction strip m with
  | case1 m h => simp [value, h]
  | case2 m h hmod ih =>
    rw [ih]
    have hsplit : (m.coefficient : ℚ) = (m.coefficient / 10 : ℕ) * 10 := by
      exact_mod_cast (Nat.div_mul_cancel (Nat.dvd_of_mod_eq_zero hmod)).symm
    simp only [value]
    rw [zpow_add_one₀ (by norm_num), hsplit]
    ring
  | case3 m h hmod => rfl

theorem strip_stripped (m : Magnitude) : m.strip.Stripped := by
  fun_induction strip m with
  | case1 m h => exact Or.inl rfl
  | case2 m h hmod ih => exact ih
  | case3 m h hmod => exact Or.inr hmod

theorem Stripped.zero_exponent {m : Magnitude} (h : m.Stripped) (hz : m.coefficient = 0) :
    m = ⟨0, 0⟩ := by
  rcases h with h | h
  · exact h
  · simp [hz] at h

/-- Of two numbers of one value the one with the smaller exponent is a multiple of the other. -/
theorem coefficient_eq_mul {m n : Magnitude} (he : m.exponent ≤ n.exponent)
    (hv : m.value = n.value) :
    m.coefficient = n.coefficient * 10 ^ (n.exponent - m.exponent).toNat := by
  have hp := (ten_zpow_pos m.exponent).ne'
  unfold value at hv
  rw [ten_zpow_split he, ← mul_assoc] at hv
  have := mul_right_cancel₀ hp hv
  exact_mod_cast this

/-- One number has one form without trailing zeros. -/
theorem Stripped.eq_of_value_eq {m n : Magnitude} (hm : m.Stripped) (hn : n.Stripped)
    (hv : m.value = n.value) : m = n := by
  wlog he : m.exponent ≤ n.exponent generalizing m n
  · exact (this hn hm hv.symm (by omega)).symm
  by_cases hz : m.coefficient = 0
  · have hz' : n.coefficient = 0 := by
      rw [← value_eq_zero_iff, ← hv, value_eq_zero_iff, hz]
    rw [hm.zero_exponent hz, hn.zero_exponent hz']
  · have hc := coefficient_eq_mul he hv
    have hmod : m.coefficient % 10 ≠ 0 := by
      rcases hm with h | h
      · exact absurd (congrArg coefficient h) hz
      · exact h
    obtain ⟨c, e⟩ := m
    obtain ⟨c', e'⟩ := n
    simp only at he hc hmod
    have hsame : e' - e = 0 := by
      by_contra hne
      obtain ⟨k, hk⟩ : ∃ k, (e' - e).toNat = k + 1 := ⟨(e' - e).toNat - 1, by omega⟩
      rw [hk, pow_succ, ← mul_assoc] at hc
      omega
    rw [hsame] at hc
    simp only [mk.injEq]
    exact ⟨by simpa using hc, by omega⟩

theorem le_exponent_strip_of_ne {m : Magnitude} (h : m.coefficient ≠ 0) :
    m.exponent ≤ m.strip.exponent := by
  fun_induction strip m with
  | case1 m hzero => exact absurd hzero h
  | case2 m hzero hmod ih =>
    have hstep := ih (show m.coefficient / 10 ≠ 0 by omega)
    exact le_trans (by simp) hstep
  | case3 m hzero hmod => exact le_refl _

theorem strip_exponent_ge (m : Magnitude) : min m.exponent 0 ≤ m.strip.exponent := by
  by_cases hzero : m.coefficient = 0
  · rw [strip, if_pos hzero]
    exact min_le_right _ _
  · exact (min_le_left _ _).trans (le_exponent_strip_of_ne hzero)

/-- Stripping never goes below the exponent of a number with places. -/
theorem le_exponent_strip {m : Magnitude} (h : m.exponent ≤ 0) :
    m.exponent ≤ m.strip.exponent := by
  have hstrip := m.strip_exponent_ge
  rwa [min_eq_left h] at hstrip

/-- Stripped zeros before the point come to no more than the digits with all places. -/
theorem coefficient_strip_le {m : Magnitude} (h : m.exponent ≤ 0) :
    m.strip.coefficient * 10 ^ m.strip.exponent.toNat ≤ m.coefficient := by
  rw [coefficient_eq_mul (le_exponent_strip h) m.value_strip.symm]
  exact Nat.mul_le_mul_left _ (Nat.pow_le_pow_right (by norm_num) (by omega))

/-- A number without trailing zeros is whole just if it has no places. -/
theorem Stripped.whole_iff {m : Magnitude} (hm : m.Stripped) :
    (∃ n : ℕ, m.value = n) ↔ 0 ≤ m.exponent := by
  constructor
  · rintro ⟨n, hn⟩
    by_contra hneg
    have hv : m.value = (Magnitude.mk n 0).value := by rw [hn]; simp [value]
    have hc := coefficient_eq_mul (show m.exponent ≤ 0 by omega) hv
    obtain ⟨k, hk⟩ : ∃ k, (0 - m.exponent).toNat = k + 1 := ⟨(0 - m.exponent).toNat - 1, by omega⟩
    rw [hk, pow_succ, ← mul_assoc] at hc
    rcases hm with h | h
    · rw [h] at hneg
      exact hneg (by simp)
    · omega
  · intro h
    refine ⟨m.coefficient * 10 ^ m.exponent.toNat, ?_⟩
    rw [value, ten_zpow_split h]
    simp

/-- A number below a power of ten has fewer zeros at its end than that power. -/
theorem Stripped.exponent_lt {m : Magnitude} (hm : m.Stripped) {k : ℕ} (hk : 0 < k)
    (hv : m.value < 10 ^ k) : m.exponent < k := by
  rcases hm with hz | hnz
  · have hexponent : m.exponent = 0 := by rw [hz]
    omega
  · by_contra hle
    have hone : (1 : ℚ) ≤ m.coefficient := by
      have : 1 ≤ m.coefficient := by omega
      exact_mod_cast this
    have hlarge : (10 : ℚ) ^ (k : ℤ) ≤ 10 ^ m.exponent :=
      zpow_le_zpow_right₀ (by norm_num) (not_lt.mp hle)
    have hvalue : (10 : ℚ) ^ (k : ℤ) ≤ m.value :=
      le_trans hlarge (le_mul_of_one_le_left (ten_zpow_pos _).le hone)
    rw [zpow_natCast] at hvalue
    exact absurd hv (not_lt.mpr hvalue)

theorem value_lt (m : Magnitude) :
    m.value < 10 ^ (decimalLength m.coefficient + m.exponent : ℤ) := by
  rw [zpow_add₀ (by norm_num), zpow_natCast]
  refine mul_lt_mul_of_pos_right ?_ (ten_zpow_pos _)
  exact_mod_cast lt_ten_pow_decimalLength m.coefficient

theorem le_value {m : Magnitude} (hm : m.coefficient ≠ 0) :
    10 ^ (decimalLength m.coefficient + m.exponent - 1 : ℤ) ≤ m.value := by
  have hlen := decimalLength_pos m.coefficient
  rw [show (decimalLength m.coefficient + m.exponent - 1 : ℤ) =
    ((decimalLength m.coefficient - 1 : ℕ) : ℤ) + m.exponent by omega,
    zpow_add₀ (by norm_num), zpow_natCast]
  refine mul_le_mul_of_nonneg_right ?_ (ten_zpow_pos _).le
  exact_mod_cast ten_pow_le_of_decimalLength hm

/-- The leading digit stands at the place that the length gives. -/
theorem log_value {m : Magnitude} (hm : m.coefficient ≠ 0) :
    Int.log 10 m.value = decimalLength m.coefficient + m.exponent - 1 := by
  have hpos : 0 < m.value := lt_of_lt_of_le (ten_zpow_pos _) (le_value hm)
  have hlow := (Int.zpow_le_iff_le_log (b := 10) (by decide) hpos).mp
    (by exact_mod_cast le_value hm)
  have hhigh := (Int.lt_zpow_iff_log_lt (b := 10) (by decide) hpos).mp
    (by exact_mod_cast m.value_lt)
  omega

/-- The value as a ratio of whole numbers. -/
theorem value_ratio (m : Magnitude) :
    m.value =
      ((m.coefficient * 10 ^ m.exponent.toNat : ℕ) : ℚ) / (10 ^ (-m.exponent).toNat : ℕ) := by
  rw [value, ten_zpow_ratio, Nat.cast_mul, mul_div_assoc]

end Magnitude

namespace Exact

def value (x : Exact) : ℚ :=
  x.coefficient * 10 ^ x.exponent

@[simp]
theorem value_ofInt (n : ℤ) : (ofInt n).value = n := by
  simp [value, ofInt]

@[simp]
theorem value_zero : zero.value = 0 :=
  value_ofInt 0 |>.trans Int.cast_zero

@[simp]
theorem value_one : one.value = 1 :=
  value_ofInt 1 |>.trans Int.cast_one

theorem value_ofMagnitude (negative : Bool) (m : Magnitude) :
    (ofMagnitude negative m).value = if negative then -m.value else m.value := by
  cases negative <;> simp [value, ofMagnitude, Magnitude.value]

theorem coefficientAt_value (x : Exact) {exponent : ℤ} (h : exponent ≤ x.exponent) :
    (x.coefficientAt exponent : ℚ) * 10 ^ exponent = x.value := by
  rw [value, ten_zpow_split h]
  simp [coefficientAt, mul_assoc]

@[simp]
theorem value_add (x y : Exact) : (x.add y).value = x.value + y.value := by
  rw [← x.coefficientAt_value (min_le_left x.exponent y.exponent),
    ← y.coefficientAt_value (min_le_right x.exponent y.exponent)]
  simp [add, value, add_mul]

@[simp]
theorem value_mul (x y : Exact) : (x.mul y).value = x.value * y.value := by
  simp only [mul, value, Int.cast_mul]
  rw [zpow_add₀ (by norm_num)]
  ring

/-- Decimals are compared by their numbers. -/
theorem compare_eq (x y : Exact) : x.compare y = Ord.compare x.value y.value := by
  have hx := x.coefficientAt_value (min_le_left x.exponent y.exponent)
  have hy := y.coefficientAt_value (min_le_right x.exponent y.exponent)
  have hmono : StrictMono fun n : ℤ => (n : ℚ) * 10 ^ min x.exponent y.exponent :=
    fun m n hmn => mul_lt_mul_of_pos_right (by exact_mod_cast hmn) (ten_zpow_pos _)
  rw [compare, ← hx, ← hy, ← cmp_eq_compare, ← cmp_eq_compare]
  exact (hmono.cmp_map_eq _ _).symm

theorem isZero_iff {x : Exact} : x.isZero = true ↔ x.value = 0 := by
  simp [isZero, value, (ten_zpow_pos x.exponent).ne']

theorem isNegative_iff {x : Exact} : x.isNegative = true ↔ x.value < 0 := by
  simp [isNegative, value, mul_neg_iff, ten_zpow_pos, (ten_zpow_pos x.exponent).not_gt]

@[simp]
theorem value_magnitude (x : Exact) : x.magnitude.value = |x.value| := by
  rw [value, abs_mul, abs_of_pos (ten_zpow_pos _), magnitude, Magnitude.value,
    Nat.cast_natAbs, Int.cast_abs]

/-- A number is its magnitude with its sign. -/
theorem value_eq_signed (x : Exact) :
    x.value = if x.isNegative then -x.magnitude.value else x.magnitude.value := by
  rw [value_magnitude]
  by_cases h : x.isNegative = true
  · rw [if_pos h, abs_of_neg (isNegative_iff.mp h), neg_neg]
  · rw [if_neg h, abs_of_nonneg (not_lt.mp (mt isNegative_iff.mpr h))]

theorem value_normalize (x : Exact) : x.normalize.value = x.value := by
  rw [normalize, value_ofMagnitude, Magnitude.value_strip, ← value_eq_signed]

theorem natAbs_coefficient_normalize (x : Exact) :
    x.normalize.coefficient.natAbs = x.magnitude.strip.coefficient := by
  rw [normalize, ofMagnitude]
  split <;> simp

/-- The form without trailing zeros depends on the number only. -/
theorem normalize_congr {x y : Exact} (h : x.value = y.value) : x.normalize = y.normalize := by
  have hsign : x.isNegative = y.isNegative := by
    rw [Bool.eq_iff_iff, isNegative_iff, isNegative_iff, h]
  have hstrip : x.magnitude.strip = y.magnitude.strip :=
    (Magnitude.strip_stripped _).eq_of_value_eq (Magnitude.strip_stripped _) (by simp [h])
  rw [normalize, normalize, hsign, hstrip]

end Exact

namespace Decimal

def value (d : Decimal) : ℚ :=
  d.mantissa / 10 ^ d.scale

@[simp]
theorem value_toExact (d : Decimal) : d.toExact.value = d.value := by
  simp [toExact, Exact.value, value, div_eq_mul_inv]

theorem ofParts?_eq_some_iff {mantissa : ℤ} {scale : ℕ} {d : Decimal} :
    ofParts? mantissa scale = some d ↔ d.mantissa = mantissa ∧ d.scale = scale := by
  unfold ofParts?
  constructor
  · intro h
    split at h
    · rw [Option.some.injEq] at h
      rw [← h]
      exact ⟨rfl, rfl⟩
    · simp at h
  · rintro ⟨rfl, rfl⟩
    rw [dif_pos ⟨d.mantissa_lt, d.scale_le⟩]

/-- The decimal of a form has its value. -/
theorem value_of_ofForm? {x : Exact} {d : Decimal} (h : ofForm? x = some d) :
    d.value = x.value := by
  unfold ofForm? at h
  split at h
  · rename_i hplaces
    obtain ⟨hmantissa, hscale⟩ := ofParts?_eq_some_iff.mp h
    have hexact : d.toExact = x := by
      rw [toExact, hmantissa, hscale, Int.toNat_of_nonneg (by omega), neg_neg]
    rw [← value_toExact, hexact]
  · rename_i hwhole
    split at h
    · rename_i hzero
      obtain ⟨hmantissa, hscale⟩ := ofParts?_eq_some_iff.mp h
      rw [value, hmantissa, Int.cast_zero, zero_div, Exact.isZero_iff.mp hzero]
    · split at h
      · simp at h
      · obtain ⟨hmantissa, hscale⟩ := ofParts?_eq_some_iff.mp h
        have hvalue := x.coefficientAt_value (show 0 ≤ x.exponent by omega)
        rw [zpow_zero, mul_one] at hvalue
        rw [value, hmantissa, hscale, pow_zero, div_one, hvalue]

theorem exists_ofParts? {mantissa : ℤ} {scale : ℕ} (hmantissa : mantissa.natAbs < 2 ^ 96)
    (hscale : scale ≤ 28) : ∃ d, ofParts? mantissa scale = some d :=
  ⟨⟨mantissa, scale, hmantissa, hscale⟩, ofParts?_eq_some_iff.mpr ⟨rfl, rfl⟩⟩

/-- A whole number of 96 bits does not end in more than 28 zeros. -/
theorem exponent_le {m : Magnitude} (hpos : 0 < m.coefficient)
    (h : m.coefficient * 10 ^ m.exponent.toNat < 2 ^ 96) : m.exponent ≤ 28 := by
  by_contra hlarge
  have hten : 10 ^ 29 ≤ 10 ^ m.exponent.toNat := Nat.pow_le_pow_right (by norm_num) (by omega)
  have hone : 10 ^ m.exponent.toNat ≤ m.coefficient * 10 ^ m.exponent.toNat :=
    Nat.le_mul_of_pos_left _ hpos
  have hsize : (2 : ℕ) ^ 96 < 10 ^ 29 := by norm_num
  omega

/-- A decimal that has trailing zeros stays one without them. -/
theorem exists_ofForm?_normalize (d : Decimal) :
    ∃ e, ofForm? d.toExact.normalize = some e := by
  have hscale := d.scale_le
  have hscaled : d.toExact.magnitude.exponent ≤ 0 := by simp [toExact, Exact.magnitude]
  have hlow : -(d.scale : ℤ) ≤ d.toExact.normalize.exponent := Magnitude.le_exponent_strip hscaled
  have hcoefficient := d.toExact.natAbs_coefficient_normalize
  have hsmall : d.toExact.magnitude.strip.coefficient *
      10 ^ d.toExact.magnitude.strip.exponent.toNat < 2 ^ 96 :=
    lt_of_le_of_lt (Magnitude.coefficient_strip_le hscaled) d.mantissa_lt
  unfold ofForm?
  split
  · refine exists_ofParts? ?_ (by omega)
    rw [hcoefficient]
    exact lt_of_le_of_lt (Nat.le_mul_of_pos_right _ (by positivity)) hsmall
  · rename_i hwhole
    have hpos : 0 < d.toExact.magnitude.strip.coefficient := by
      rw [Nat.pos_iff_ne_zero]
      intro hzero
      have hstrip := d.toExact.magnitude.strip_stripped.zero_exponent hzero
      exact hwhole (congrArg Magnitude.exponent hstrip).le
    have hplaces : d.toExact.normalize.exponent ≤ 28 := exponent_le hpos hsmall
    split
    · exact exists_ofParts? (by decide) (Nat.zero_le _)
    · rw [if_neg (by omega)]
      refine exists_ofParts? ?_ (Nat.zero_le _)
      rw [Exact.coefficientAt, Int.sub_zero, Int.natAbs_mul, hcoefficient]
      exact hsmall

theorem value_of_ofExact? {x : Exact} {d : Decimal} (h : ofExact? x = some d) :
    d.value = x.value := by
  rcases Option.or_eq_some_iff.mp h with hform | ⟨_, hnormal⟩
  · exact value_of_ofForm? hform
  · rw [value_of_ofForm? hnormal, Exact.value_normalize]

/-- The totals that are decimals are those that a decimal holds: where the form of one does not fit,
the form without trailing zeros does. -/
theorem isSome_ofExact?_iff {x : Exact} :
    (ofExact? x).isSome ↔ ∃ d : Decimal, d.value = x.value := by
  constructor
  · intro h
    obtain ⟨d, hd⟩ := Option.isSome_iff_exists.mp h
    exact ⟨d, value_of_ofExact? hd⟩
  · rintro ⟨d, hd⟩
    obtain ⟨e, he⟩ := d.exists_ofForm?_normalize
    rw [Exact.normalize_congr (d.value_toExact.trans hd)] at he
    rw [ofExact?, Option.isSome_or, he, Option.isSome_some, Bool.or_true]

end Decimal

namespace Value

/-- The number of a value that holds one exactly; floating point values are not taken to. -/
def number? : Value → Option ℚ
  | byte n => some n.toInt
  | short n => some n.toInt
  | integer n => some n.toInt
  | long n => some n.toInt
  | decimal d => some d.value
  | _ => none

theorem toExact?_of_number? {v : Value} {x : ℚ} (h : v.number? = some x) :
    ∃ e : Exact, v.toExact? = some e ∧ e.value = x := by
  cases v <;> simp only [number?, Option.some.injEq, reduceCtorEq] at h <;> subst h
  case byte n => exact ⟨_, rfl, by simp⟩
  case short n => exact ⟨_, rfl, by simp⟩
  case integer n => exact ⟨_, rfl, by simp⟩
  case long n => exact ⟨_, rfl, by simp⟩
  case decimal d => exact ⟨_, rfl, d.value_toExact⟩

end Value

end Reckoner
