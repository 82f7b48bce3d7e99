import Mathlib.Algebra.Order.Floor.Ring
import Mathlib.Algebra.Order.Round
import Mathlib.Data.Int.Log
import Mathlib.Data.Rat.Floor
import Mathlib.Tactic.FieldSimp
import Mathlib.Tactic.Linarith
import Mathlib.Tactic.NormNum
import Mathlib.Tactic.Positivity
import Mathlib.Tactic.Ring
import Reckoner.Binary.Rounding

namespace Reckoner

/-- The whole number nearest to a rational; of two as near, the even one. -/
def halfEven (x : ℚ) : ℤ :=
  if 2 * (x - ⌊x⌋) < 1 ∨ 2 * (x - ⌊x⌋) = 1 ∧ Even ⌊x⌋ then ⌊x⌋ else ⌊x⌋ + 1

/-- What makes a whole number the rounded one. -/
def IsHalfEven (x : ℚ) (n : ℤ) : Prop :=
  2 * |x - n| < 1 ∨ 2 * |x - n| = 1 ∧ Even n

theorem isHalfEven_of_lt {x : ℚ} {n : ℤ} (hlow : n - 1 / 2 < x) (hhigh : x < n + 1 / 2) :
    IsHalfEven x n := by
  have habs : |x - n| < 1 / 2 := abs_lt.mpr ⟨by linarith, by linarith⟩
  exact Or.inl (by linarith)

/-- A middle is rounded up from an odd number. -/
theorem isHalfEven_of_middle {x : ℚ} {n : ℕ} (h : x = n + 1 / 2) :
    IsHalfEven x (n + (n % 2 == 1).toNat : ℕ) := by
  rw [h]
  rcases Nat.mod_two_eq_zero_or_one n with heven | hodd
  · rw [heven]
    change IsHalfEven _ ((n + 0 : ℕ) : ℤ)
    refine Or.inr ⟨?_, by exact_mod_cast Nat.even_iff.mpr heven⟩
    norm_num
  · rw [hodd]
    change IsHalfEven _ ((n + 1 : ℕ) : ℤ)
    refine Or.inr ⟨?_, by exact_mod_cast (Nat.odd_iff.mpr hodd).add_one⟩
    push_cast
    rw [abs_of_neg (by linarith)]
    ring

theorem halfEven_isHalfEven (x : ℚ) : IsHalfEven x (halfEven x) := by
  have hlow := Int.floor_le x
  have hhigh := Int.lt_floor_add_one x
  unfold IsHalfEven halfEven
  split
  · rename_i h
    rw [abs_of_nonneg (by linarith)]
    exact h
  · rename_i h
    push Not at h
    have habs : |x - ((⌊x⌋ + 1 : ℤ) : ℚ)| = ⌊x⌋ + 1 - x := by
      push_cast
      rw [abs_of_neg (by linarith)]
      ring
    rw [habs]
    rcases lt_or_eq_of_le h.1 with hlt | heq
    · left; linarith
    · right
      exact ⟨by linarith, (Int.not_even_iff_odd.mp (h.2 heq.symm)).add_one⟩

/-- Two rounded numbers of one rational would be neighbours, both of them even. -/
theorem IsHalfEven.unique {x : ℚ} {m n : ℤ} (hm : IsHalfEven x m) (hn : IsHalfEven x n) :
    m = n := by
  have hle : ∀ k : ℤ, IsHalfEven x k → 2 * |x - k| ≤ 1 := by
    intro k hk
    rcases hk with h | h
    · exact le_of_lt h
    · exact le_of_eq h.1
  have hm' := abs_le.mp (show |x - m| ≤ 1 / 2 by linarith [hle m hm])
  have hn' := abs_le.mp (show |x - n| ≤ 1 / 2 by linarith [hle n hn])
  have hmn : (m : ℚ) - n ≤ 1 := by linarith [hm'.1, hn'.2]
  have hnm : (n : ℚ) - m ≤ 1 := by linarith [hn'.1, hm'.2]
  have hmn' : m - n ≤ 1 := by exact_mod_cast hmn
  have hnm' : n - m ≤ 1 := by exact_mod_cast hnm
  by_contra hne
  -- at a distance of one both are as far as can be, so both are even
  have htie : ∀ k l : ℤ, IsHalfEven x k → IsHalfEven x l → k = l + 1 → Even k ∧ Even l := by
    intro k l hk hl hkl
    have hcast : (k : ℚ) = l + 1 := by exact_mod_cast hkl
    have hlow := le_abs_self (x - l)
    have hhigh := neg_abs_le (x - k)
    have hk2 := hle k hk
    have hl2 := hle l hl
    constructor
    · rcases hk with h | h
      · linarith
      · exact h.2
    · rcases hl with h | h
      · linarith
      · exact h.2
  rcases lt_or_gt_of_ne hne with h | h
  · obtain ⟨h1, h2⟩ := htie n m hn hm (by omega)
    rw [show n = m + 1 by omega, Int.even_add_one] at h1
    exact h1 h2
  · obtain ⟨h1, h2⟩ := htie m n hm hn (by omega)
    rw [show m = n + 1 by omega, Int.even_add_one] at h1
    exact h1 h2

theorem halfEven_eq_iff {x : ℚ} {n : ℤ} : halfEven x = n ↔ IsHalfEven x n :=
  ⟨fun h => h ▸ halfEven_isHalfEven x, fun h => (halfEven_isHalfEven x).unique h⟩

@[simp]
theorem halfEven_intCast (n : ℤ) : halfEven n = n := by
  rw [halfEven_eq_iff]
  left
  simp

theorem halfEven_neg (x : ℚ) : halfEven (-x) = -halfEven x := by
  rw [halfEven_eq_iff]
  have habs : |-x - ((-halfEven x : ℤ) : ℚ)| = |x - halfEven x| := by
    push_cast
    rw [← abs_neg]
    congr 1
    ring
  unfold IsHalfEven
  rw [habs, even_neg]
  exact halfEven_isHalfEven x

theorem le_halfEven {x : ℚ} {n : ℤ} (h : n ≤ x) : n ≤ halfEven x := by
  have hfloor : n ≤ ⌊x⌋ := Int.le_floor.mpr h
  unfold halfEven
  split <;> omega

theorem halfEven_le {x : ℚ} {n : ℤ} (h : x ≤ n) : halfEven x ≤ n := by
  have hneg : ((-n : ℤ) : ℚ) ≤ -x := by
    push_cast
    linarith
  have hle := le_halfEven hneg
  rw [halfEven_neg] at hle
  omega

theorem abs_halfEven_sub_le (x : ℚ) : |halfEven x - x| ≤ 1 / 2 := by
  rw [abs_sub_comm]
  rcases halfEven_isHalfEven x with h | h
  · linarith
  · linarith [h.1]

theorem roundHalfEven_cases (num den : ℕ) :
    (2 * (num % den) < den ∧ roundHalfEven num den = num / den) ∨
      (den < 2 * (num % den) ∧ roundHalfEven num den = num / den + 1) ∨
      (2 * (num % den) = den ∧ roundHalfEven num den = num / den + num / den % 2) := by
  unfold roundHalfEven
  rcases lt_trichotomy (2 * (num % den)) den with h | h | h
  · exact Or.inl ⟨h, by simp only [Nat.compare_eq_lt.mpr h]⟩
  · exact Or.inr (Or.inr ⟨h, by simp only [Nat.compare_eq_eq.mpr h]⟩)
  · exact Or.inr (Or.inl ⟨h, by simp only [Nat.compare_eq_gt.mpr h]⟩)

theorem ratio_split (num : ℕ) {den : ℕ} (h : 0 < den) :
    (num : ℚ) / den = (num / den : ℕ) + ((num % den : ℕ) : ℚ) / den := by
  have hden : (den : ℚ) ≠ 0 := by exact_mod_cast h.ne'
  have hnum : (num : ℚ) = den * (num / den : ℕ) + (num % den : ℕ) := by
    exact_mod_cast (Nat.div_add_mod num den).symm
  calc (num : ℚ) / den = (den * (num / den : ℕ) + (num % den : ℕ)) / den := by rw [← hnum]
    _ = (num / den : ℕ) + ((num % den : ℕ) : ℚ) / den := by
      rw [add_div, mul_div_cancel_left₀ _ hden]

/-- A ratio of natural numbers is rounded by its remainder alone. -/
theorem halfEven_div (num : ℕ) {den : ℕ} (hden : 0 < den) :
    halfEven ((num : ℚ) / den) = roundHalfEven num den := by
  have hd : (0 : ℚ) < den := by exact_mod_cast hden
  have hfloor : ⌊(num : ℚ) / den⌋ = ((num / den : ℕ) : ℤ) := by
    rw [Int.natCast_div, ← Rat.floor_intCast_div_natCast, Int.cast_natCast]
  have hrest : 2 * ((num : ℚ) / den - ((num / den : ℕ) : ℤ)) =
      ((2 * (num % den) : ℕ) : ℚ) / den := by
    rw [ratio_split num hden, Int.cast_natCast, add_sub_cancel_left, ← mul_div_assoc, Nat.cast_mul,
      Nat.cast_ofNat]
  unfold halfEven
  simp only [hfloor, hrest, div_lt_one hd, div_eq_one_iff_eq hd.ne', Nat.cast_lt, Nat.cast_inj,
    Int.even_coe_nat, Nat.even_iff]
  rcases roundHalfEven_cases num den with ⟨h, hr⟩ | ⟨h, hr⟩ | ⟨h, hr⟩
  · rw [hr, if_pos (Or.inl h)]
  · rw [hr, if_neg (by omega), Nat.cast_succ]
  · rw [hr]
    rcases Nat.mod_two_eq_zero_or_one (num / den) with he | ho
    · rw [if_pos (Or.inr ⟨h, he⟩), he, Nat.add_zero]
    · rw [if_neg (by omega), ho, Nat.cast_succ]

/-- The multiple of `10 ^ exponent` nearest to a rational; of two as near, the even multiple. -/
def roundedTo (exponent : ℤ) (x : ℚ) : ℚ :=
  halfEven (x / 10 ^ exponent) * 10 ^ exponent

@[simp]
theorem roundedTo_zero (exponent : ℤ) : roundedTo exponent 0 = 0 := by
  have h : halfEven 0 = 0 := by simpa using halfEven_intCast 0
  simp [roundedTo, h]

theorem roundedTo_neg (exponent : ℤ) (x : ℚ) : roundedTo exponent (-x) = -roundedTo exponent x := by
  simp [roundedTo, neg_div, halfEven_neg]

/-- A power of ten is a multiple of each smaller one. -/
theorem ten_zpow_multiple {exponent e : ℤ} (h : exponent ≤ e) :
    ((10 ^ (e - exponent).toNat : ℤ) : ℚ) * 10 ^ exponent = 10 ^ e := by
  push_cast
  rw [← zpow_natCast, ← zpow_add₀ (by norm_num)]
  congr 1
  omega

theorem roundedTo_multiple (exponent n : ℤ) :
    roundedTo exponent (n * 10 ^ exponent) = n * 10 ^ exponent := by
  have h : (10 : ℚ) ^ exponent ≠ 0 := zpow_ne_zero _ (by norm_num)
  simp [roundedTo, h]

/-- A number with no digit below `10 ^ exponent` stays as it is. -/
theorem roundedTo_of_le {exponent e : ℤ} (h : exponent ≤ e) (n : ℤ) :
    roundedTo exponent (n * 10 ^ e) = n * 10 ^ e := by
  have hsplit : (n : ℚ) * 10 ^ e = ((n * 10 ^ (e - exponent).toNat : ℤ) : ℚ) * 10 ^ exponent := by
    rw [Int.cast_mul, mul_assoc, ten_zpow_multiple h]
  rw [hsplit, roundedTo_multiple]

theorem roundedTo_scale (exponent places : ℤ) (x : ℚ) :
    roundedTo (exponent + places) (x * 10 ^ places) = roundedTo exponent x * 10 ^ places := by
  have h : (10 : ℚ) ^ places ≠ 0 := zpow_ne_zero _ (by norm_num)
  unfold roundedTo
  rw [zpow_add₀ (by norm_num), mul_div_mul_right _ _ h]
  ring

theorem le_roundedTo {exponent e : ℤ} (h : exponent ≤ e) {x : ℚ} (hx : 10 ^ e ≤ x) :
    10 ^ e ≤ roundedTo exponent x := by
  have hp : (0 : ℚ) < 10 ^ exponent := zpow_pos (by norm_num) _
  have hstep := ten_zpow_multiple h
  have hle : ((10 ^ (e - exponent).toNat : ℤ) : ℚ) ≤ x / 10 ^ exponent := by
    rw [le_div_iff₀ hp, hstep]
    exact hx
  have hround : ((10 ^ (e - exponent).toNat : ℤ) : ℚ) ≤ halfEven (x / 10 ^ exponent) := by
    exact_mod_cast le_halfEven hle
  calc (10 : ℚ) ^ e = ((10 ^ (e - exponent).toNat : ℤ) : ℚ) * 10 ^ exponent := hstep.symm
    _ ≤ halfEven (x / 10 ^ exponent) * 10 ^ exponent :=
      mul_le_mul_of_nonneg_right hround hp.le

theorem roundedTo_le {exponent e : ℤ} (h : exponent ≤ e) {x : ℚ} (hx : x ≤ 10 ^ e) :
    roundedTo exponent x ≤ 10 ^ e := by
  have hp : (0 : ℚ) < 10 ^ exponent := zpow_pos (by norm_num) _
  have hstep := ten_zpow_multiple h
  have hle : x / 10 ^ exponent ≤ ((10 ^ (e - exponent).toNat : ℤ) : ℚ) := by
    rw [div_le_iff₀ hp, hstep]
    exact hx
  have hround : (halfEven (x / 10 ^ exponent) : ℚ) ≤ ((10 ^ (e - exponent).toNat : ℤ) : ℚ) := by
    exact_mod_cast halfEven_le hle
  calc halfEven (x / 10 ^ exponent) * 10 ^ exponent
      ≤ ((10 ^ (e - exponent).toNat : ℤ) : ℚ) * 10 ^ exponent :=
        mul_le_mul_of_nonneg_right hround hp.le
    _ = 10 ^ e := hstep

theorem abs_roundedTo_sub_le (exponent : ℤ) (x : ℚ) :
    |roundedTo exponent x - x| ≤ 10 ^ exponent / 2 := by
  have hp : (0 : ℚ) < 10 ^ exponent := zpow_pos (by norm_num) _
  have hsplit : roundedTo exponent x - x = (halfEven (x / 10 ^ exponent) - x / 10 ^ exponent) *
      10 ^ exponent := by
    rw [roundedTo, sub_mul, div_mul_cancel₀ _ hp.ne']
  calc |roundedTo exponent x - x| = |halfEven (x / 10 ^ exponent) - x / 10 ^ exponent| *
        10 ^ exponent := by rw [hsplit, abs_mul, abs_of_pos hp]
    _ ≤ 1 / 2 * 10 ^ exponent := mul_le_mul_of_nonneg_right (abs_halfEven_sub_le _) hp.le
    _ = 10 ^ exponent / 2 := by ring

/-- A rational rounded to a count of significant digits. -/
def roundedToDigits (count : ℤ) (x : ℚ) : ℚ :=
  roundedTo (Int.log 10 |x| + 1 - count) x

theorem roundedToDigits_neg (count : ℤ) (x : ℚ) :
    roundedToDigits count (-x) = -roundedToDigits count x := by
  rw [roundedToDigits, roundedToDigits, abs_neg, roundedTo_neg]

/-- Digits that are dropped are worth at most half a unit of the last one that is kept. -/
theorem abs_roundedToDigits_sub_le (count : ℤ) {x : ℚ} (hx : x ≠ 0) :
    |roundedToDigits count x - x| ≤ 5 * 10 ^ (-count) * |x| := by
  have hlow : (10 : ℚ) ^ Int.log 10 |x| ≤ |x| := by
    exact_mod_cast Int.zpow_log_le_self (b := 10) (by decide) (abs_pos.mpr hx)
  have hunit : (10 : ℚ) ^ (Int.log 10 |x| + 1 - count) / 2 =
      5 * 10 ^ (-count) * 10 ^ Int.log 10 |x| := by
    rw [sub_eq_add_neg, zpow_add₀ (by norm_num), zpow_add_one₀ (by norm_num)]
    ring
  refine (abs_roundedTo_sub_le _ x).trans ?_
  rw [hunit]
  exact mul_le_mul_of_nonneg_left hlow (mul_nonneg (by norm_num) (zpow_pos (by norm_num) _).le)

/-- A number with as many whole digits as are kept is rounded to a whole one, at any scale; it may
be the first with a digit more, where all digits that are dropped are zeros. -/
theorem roundedToDigits_scaled {count : ℕ} {x : ℚ} (hlow : 10 ^ count ≤ x)
    (hhigh : x ≤ 10 ^ (count + 1)) (exponent : ℤ) :
    roundedToDigits (count + 1 : ℕ) (x * 10 ^ exponent) = halfEven x * 10 ^ exponent := by
  have hten : (10 : ℚ) ≠ 0 := by norm_num
  have hp : (0 : ℚ) < 10 ^ exponent := zpow_pos (by norm_num) _
  have hpos : 0 < x := lt_of_lt_of_le (by positivity) hlow
  have habs : |x * 10 ^ exponent| = x * 10 ^ exponent := abs_of_pos (mul_pos hpos hp)
  rcases hhigh.lt_or_eq with hlt | rfl
  · have hlog : Int.log 10 (x * 10 ^ exponent) = count + exponent := by
      have hbelow : ((10 : ℕ) : ℚ) ^ (count + exponent : ℤ) ≤ x * 10 ^ exponent := by
        rw [Nat.cast_ofNat, zpow_add₀ hten, zpow_natCast]
        exact mul_le_mul_of_nonneg_right hlow hp.le
      have habove : x * 10 ^ exponent < ((10 : ℕ) : ℚ) ^ (count + 1 + exponent : ℤ) := by
        rw [Nat.cast_ofNat, zpow_add₀ hten, zpow_add_one₀ hten, zpow_natCast, ← pow_succ]
        exact mul_lt_mul_of_pos_right hlt hp
      have hge := (Int.zpow_le_iff_le_log (by decide) (mul_pos hpos hp)).mp hbelow
      have hle := (Int.lt_zpow_iff_log_lt (by decide) (mul_pos hpos hp)).mp habove
      omega
    have hunit : (count : ℤ) + exponent + 1 - (count + 1 : ℕ) = exponent := by push_cast; omega
    rw [roundedToDigits, habs, hlog, hunit, roundedTo, mul_div_cancel_right₀ _ hp.ne']
  · have hvalue : (10 : ℚ) ^ (count + 1) * 10 ^ exponent =
        ((1 : ℤ) : ℚ) * 10 ^ (count + 1 + exponent : ℤ) := by
      rw [Int.cast_one, one_mul, zpow_add₀ hten, zpow_add_one₀ hten, zpow_natCast, ← pow_succ]
    have hlog : Int.log 10 ((10 : ℚ) ^ (count + 1 + exponent : ℤ)) = count + 1 + exponent := by
      exact_mod_cast Int.log_zpow (R := ℚ) (b := 10) (by decide) (count + 1 + exponent)
    have hwhole : (halfEven (10 ^ (count + 1)) : ℚ) = 10 ^ (count + 1) := by
      have hcast := halfEven_intCast (10 ^ (count + 1))
      push_cast at hcast
      rw [hcast]
      push_cast
      rfl
    rw [hwhole, roundedToDigits, habs, hvalue, Int.cast_one, one_mul, hlog]
    have hkept := roundedTo_of_le
      (show (count + 1 + exponent + 1 - (count + 1 : ℕ) : ℤ) ≤ count + 1 + exponent by
        push_cast; omega) 1
    rwa [Int.cast_one, one_mul] at hkept

end Reckoner
