import Reckoner.Proofs.ShortestText

namespace Reckoner

namespace BinaryFormat

variable {f : BinaryFormat} {x y : ℚ} {rank : ℕ}

/-- Half way from a rank to the next one. -/
def middle (f : BinaryFormat) (low : ℕ) : ℚ :=
  (f.value low + f.value (low + 1)) / 2

theorem exists_isNearestRank (f : BinaryFormat) (hx : 0 ≤ x) : ∃ rank, f.IsNearestRank x rank := by
  have hscale : (f.scale : ℚ) ≠ 0 := by exact_mod_cast f.scale_pos.ne'
  have hnear := f.nearestRank_isNearestRank (x.num.natAbs * f.scale) x.den_pos
  rw [Nat.cast_mul, mul_div_mul_right _ _ hscale, Nat.cast_natAbs,
    abs_of_nonneg (Rat.num_nonneg.mpr hx), Rat.num_div_den] at hnear
  exact ⟨_, hnear⟩

/-- What is nearest to a rank is not past its middle with the next one. -/
theorem IsNearestRank.le_middle (h : f.IsNearestRank x rank) : x ≤ f.middle rank := by
  have hstep := f.value_strictMono (Nat.lt_succ_self rank)
  have hnear := h.near (rank + 1)
  rw [middle]
  rcases abs_cases (f.value rank - x) with hr | hr <;>
    rcases abs_cases (f.value (rank + 1) - x) with hn | hn <;> linarith

/-- Numbers on the same side of each middle are rounded to the same rank. -/
theorem IsNearestRank.of_sides (h : f.IsNearestRank y rank) (hx : 0 ≤ x)
    (hsides : ∀ low, compare y (f.middle low) = compare x (f.middle low)) :
    f.IsNearestRank x rank := by
  obtain ⟨other, hother⟩ := f.exists_isNearestRank hx
  -- of two ranks that differ the middle above the lower one would be both numbers
  have hsame {a b : ℕ} {p q : ℚ} (hp : f.IsNearestRank p a) (hq : f.IsNearestRank q b)
      (hlt : a < b) (hside : compare p (f.middle a) = compare q (f.middle a)) : p = q := by
    have hhigh : f.middle a ≤ q := by
      have hmiddle := hq.middle_le hlt
      rw [middle]
      linarith
    have hp' := hp.le_middle
    rcases hp'.lt_or_eq with hless | heq
    · rw [compare_lt_iff_lt.mpr hless] at hside
      exact absurd (compare_lt_iff_lt.mp hside.symm) (not_lt.mpr hhigh)
    · rw [compare_eq_iff_eq.mpr heq] at hside
      rw [heq, compare_eq_iff_eq.mp hside.symm]
  rcases lt_trichotomy rank other with hlt | rfl | hgt
  · rw [← hsame h hother hlt (hsides rank)]
    exact h
  · exact hother
  · rw [hsame hother h hgt (hsides other).symm]
    exact h

/-- A middle has an odd numerator of few bits over a power of two, if it is not whole. -/
theorem exists_middle_eq (f : BinaryFormat) (low : ℕ) :
    ∃ num places : ℕ, f.middle low = num / 2 ^ places ∧
      (places = 0 ∨ num % 2 = 1 ∧ num < 4 * f.binade) := by
  obtain ⟨shift, k, rfl, hlow, hhigh⟩ := f.exists_block low
  have hmiddle : f.middle (shift * f.binade + k) =
      (2 * k + 1 : ℕ) * 2 ^ shift / 2 ^ (f.unitBits + 1) := by
    have hscale : (f.scale : ℚ) = 2 ^ f.unitBits := by
      rw [scale, Nat.pow_eq, Nat.cast_pow, Nat.cast_ofNat]
    rw [middle, value, value, f.units_block shift hlow (by omega), Nat.add_assoc,
      f.units_block shift (hlow.imp id (by omega)) hhigh, hscale, pow_succ]
    push_cast
    field_simp
    ring
  rcases Nat.lt_or_ge shift (f.unitBits + 1) with hless | hge
  · obtain ⟨places, hplaces⟩ := Nat.exists_eq_add_of_le hless.le
    refine ⟨2 * k + 1, places, ?_, Or.inr ⟨by omega, by omega⟩⟩
    rw [hmiddle, hplaces, pow_add, mul_comm, mul_div_mul_left _ _ (by positivity)]
  · obtain ⟨more, hmore⟩ := Nat.exists_eq_add_of_le hge
    refine ⟨(2 * k + 1) * 2 ^ more, 0, ?_, Or.inl rfl⟩
    rw [hmiddle, hmore, pow_add, mul_left_comm, mul_div_cancel_left₀ _ (by positivity)]
    push_cast
    ring

end BinaryFormat

/-- A number that is nearer to another than a third is lies on the same side of it. -/
theorem compare_of_near {x y m : ℚ} (h : |y - x| < |m - x|) : compare y m = compare x m := by
  rcases lt_trichotomy x m with hlt | rfl | hgt
  · rw [abs_of_pos (by linarith : 0 < m - x)] at h
    have hy : y < m := by linarith [le_abs_self (y - x)]
    rw [compare_lt_iff_lt.mpr hlt, compare_lt_iff_lt.mpr hy]
  · rw [sub_self, abs_zero] at h
    exact absurd h (not_lt.mpr (abs_nonneg _))
  · rw [abs_of_neg (by linarith : m - x < 0)] at h
    have hy : m < y := by linarith [neg_abs_le (y - x)]
    rw [compare_gt_iff_gt.mpr hgt, compare_gt_iff_gt.mpr hy]

theorem sign_of_near {x y : ℚ} (h : |y - x| < |x|) : y ≠ 0 ∧ (y < 0 ↔ x < 0) := by
  have hx : x ≠ 0 := abs_pos.mp ((abs_nonneg _).trans_lt h)
  have hside : compare y 0 = compare x 0 := compare_of_near (by rwa [zero_sub, abs_neg])
  constructor
  · rwa [Ne, ← compare_eq_iff_eq, hside, compare_eq_iff_eq]
  · rw [← compare_lt_iff_lt, hside, compare_lt_iff_lt]

namespace Binary

variable {f : BinaryFormat} {b : Binary f}

theorem Rounds.of_sides {negative : Bool} {x y : ℚ} (h : b.Rounds negative y) (hx : 0 ≤ x)
    (hsides : ∀ low, compare y (f.middle low) = compare x (f.middle low)) :
    b.Rounds negative x := by
  cases b with
  | nan => exact h
  | infinite sign =>
    obtain ⟨hsign, rank, hrank, hnear⟩ := h
    exact ⟨hsign, rank, hrank, hnear.of_sides hx hsides⟩
  | finite sign rank => exact ⟨h.1, h.2.of_sides hx hsides⟩

end Binary

end Reckoner
