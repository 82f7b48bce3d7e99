import Reckoner.Proofs.ExactDifferences
import Reckoner.Proofs.ExtendedLine

namespace Reckoner

namespace BinaryFormat

variable {f : BinaryFormat} {a : ℕ} {m k : ℤ}

/-- From the first number with a full significand before its point on, all magnitudes are whole
numbers. -/
theorem lt_of_not_scale_dvd (ha : f.IsMagnitude a) (h : ¬f.scale ∣ a) :
    a < f.binade * f.scale := by
  obtain ⟨rank, rfl⟩ := ha
  by_contra hle
  have hblock := f.units_block f.unitBits (Or.inr (Nat.le_refl _))
    (show f.binade ≤ 2 * f.binade by omega)
  apply h
  apply pow_dvd_units (k := f.binade) (Or.inr (Nat.le_refl _))
  rw [← f.units_strictMono.le_iff_le, hblock]
  exact not_lt.mp hle

theorem isMagnitude_whole (hm : m.natAbs ≤ 2 * f.binade) :
    f.IsMagnitude (m * f.scale).natAbs := by
  rw [Int.natAbs_mul, Int.natAbs_natCast]
  exact isMagnitude_mul_pow f.unitBits hm

theorem whole_lt_units_ranks (hm : m.natAbs ≤ 2 * f.binade) :
    (m * f.scale).natAbs < f.units f.ranks := by
  have hlast : f.unitBits * f.binade + 2 * f.binade < f.ranks := by cases f <;> decide
  have htop := f.units_strictMono hlast
  rw [f.units_block f.unitBits (Or.inr (by omega)) (Nat.le_refl _)] at htop
  rw [Int.natAbs_mul, Int.natAbs_natCast]
  exact (Nat.mul_le_mul_right _ hm).trans_lt htop

/-- One is a number of the format. -/
theorem isMagnitude_scale (f : BinaryFormat) : f.IsMagnitude f.scale := by
  have hbinade := f.binade_pos
  have hpower := isMagnitude_mul_pow (f := f) f.unitBits (k := 1) (by omega)
  rwa [Nat.one_mul] at hpower

theorem scale_lt_units_ranks (f : BinaryFormat) : f.scale < f.units f.ranks := by
  have hbinade := f.binade_pos
  have hone := whole_lt_units_ranks (f := f) (m := 1) (by rw [Int.natAbs_one]; omega)
  rwa [one_mul, Int.natAbs_natCast] at hone

/-- The whole number below what is not whole is within the significand, and the next one is too. -/
theorem natAbs_floor_lt (hk : f.IsMagnitude k.natAbs) (h : ¬(f.scale : ℤ) ∣ k) :
    (k / f.scale).natAbs ≤ f.binade ∧ (k / f.scale + 1).natAbs ≤ f.binade := by
  have hscale : (0 : ℤ) < f.scale := by exact_mod_cast f.scale_pos
  have hlt := lt_of_not_scale_dvd hk (mt Int.natCast_dvd.mpr h)
  have hsize : |k| < f.binade * f.scale := by
    rw [Int.abs_eq_natAbs]
    exact_mod_cast hlt
  obtain ⟨hneg, hpos⟩ := abs_lt.mp hsize
  have hlow : -(f.binade : ℤ) ≤ k / f.scale := by
    rw [Int.le_ediv_iff_mul_le hscale, neg_mul]
    exact hneg.le
  have hhigh : k / f.scale < f.binade := Int.ediv_lt_of_lt_mul hscale hpos
  omega

/-- A fraction below one half is exact. It is less than the number itself, unless that is the
fraction. -/
theorem isMagnitude_fraction (hk : f.IsMagnitude k.natAbs) (h : 2 * (k % f.scale) < f.scale) :
    f.IsMagnitude (k % f.scale).natAbs := by
  have hscale : (0 : ℤ) < f.scale := by exact_mod_cast f.scale_pos
  have hnonneg := Int.emod_nonneg k hscale.ne'
  have hless := Int.emod_lt_of_pos k hscale
  apply isMagnitude_of_dvd hk f.isMagnitude_scale
  · rcases Int.lt_or_le k 0 with hneg | hpos
    · -- the fraction of a number above `-1` is what it lacks of `-1`, which is more than one half
      rcases Int.lt_or_le (-k) f.scale with hsmall | hlarge
      · have hfraction : k % f.scale = k + f.scale := by
          rw [← Int.add_emod_right, Int.emod_eq_of_lt (by omega) (by omega)]
        omega
      · omega
    · lift k to ℕ using hpos
      exact_mod_cast Nat.mod_le k f.scale
  · omega
  · intro c hck hcs
    rw [← Int.natCast_dvd, Int.emod_def]
    exact Int.dvd_sub (Int.natCast_dvd.mpr hck)
      (Dvd.dvd.mul_right (Int.natCast_dvd_natCast.mpr hcs) _)

end BinaryFormat

namespace Binary

variable {f : BinaryFormat} {x y : Binary f} {negative : Bool} {n den num : ℕ} {a b k m : ℤ}

theorem HasUnits.units? (h : x.HasUnits negative n) :
    x.units? = some (if negative then -(n : ℤ) else n) := by
  obtain ⟨rank, rfl, rfl⟩ := h
  rfl

theorem exists_hasUnits_of_units? (h : x.units? = some k) :
    ∃ negative, x.HasUnits negative k.natAbs ∧ k = if negative then -(k.natAbs : ℤ) else k.natAbs := by
  cases x with
  | nan => cases h
  | infinite => cases h
  | finite negative rank =>
    obtain rfl := Option.some.inj h
    have hunits := hasUnits_finite negative rank
    cases negative with
    | false => exact ⟨false, by simpa using hunits, by simp⟩
    | true => exact ⟨true, by simpa using hunits, by simp⟩

theorem isMagnitude_of_units? (h : x.units? = some k) :
    f.IsMagnitude k.natAbs ∧ k.natAbs < f.units f.ranks := by
  obtain ⟨negative, hunits, -⟩ := exists_hasUnits_of_units? h
  exact ⟨hunits.isMagnitude, hunits.lt_units_ranks⟩

theorem stored_of_units? (h : x.units? = some k) : x.stored = k / f.scale := by
  obtain ⟨negative, hunits, hk⟩ := exists_hasUnits_of_units? h
  rw [hunits.stored, ← hk]

theorem units?_neg (h : x.units? = some k) : x.neg.units? = some (-k) := by
  obtain ⟨negative, hunits, hk⟩ := exists_hasUnits_of_units? h
  rw [hunits.neg.units?, hk]
  cases negative <;> simp

/-- A number of so many units is not rounded. -/
theorem hasUnits_ofUnits_mul (h : f.IsMagnitude n) (hlt : n < f.units f.ranks) (hden : 0 < den) :
    (ofUnits negative (n * den) den : Binary f).HasUnits negative n := by
  obtain ⟨rank, rfl⟩ := h
  have hrank : rank < f.ranks := f.units_strictMono.lt_iff_lt.mp hlt
  rw [ofUnits_of_units negative hden rfl, dif_pos hrank]
  exact hasUnits_finite negative ⟨rank, hrank⟩

/-- A sum before it is rounded. -/
theorem add_eq (hx : x.units? = some a) (hy : y.units? = some b) :
    x.add y = if a + b = 0 then zero (x.isNegative && y.isNegative)
      else ofUnits (decide (a + b < 0)) (a + b).natAbs 1 := by
  cases x with
  | nan => cases hx
  | infinite => cases hx
  | finite s left =>
    cases y with
    | nan => cases hy
    | infinite => cases hy
    | finite t right =>
      obtain rfl := Option.some.inj hx
      obtain rfl := Option.some.inj hy
      rfl

theorem units?_add (hx : x.units? = some a) (hy : y.units? = some b)
    (h : f.IsMagnitude (a + b).natAbs) (hlt : (a + b).natAbs < f.units f.ranks) :
    (x.add y).units? = some (a + b) := by
  rw [add_eq hx hy]
  split
  · rename_i hzero
    rw [(hasUnits_zero _).units?, hzero]
    simp
  · rw [(hasUnits_ofUnits h hlt).units?]
    congr 1
    simp only [decide_eq_true_eq]
    split <;> omega

/-- Finite numbers are compared by what they store. -/
theorem isGE_compare? (hx : x.units? = some a) (hy : y.units? = some b) :
    (x.compare? y).any Ordering.isGE = decide (b ≤ a) := by
  have hscale : (0 : ℚ) < f.scale := by exact_mod_cast f.scale_pos
  obtain ⟨s, hs, -⟩ := exists_hasUnits_of_units? hx
  obtain ⟨t, ht, -⟩ := exists_hasUnits_of_units? hy
  have hpoint {z : Binary f} {c : ℤ} (hz : z.units? = some c) (hfinite : z.isFinite = true) :
      z.point? = some (((c / f.scale : ℚ) : WithTop ℚ) : ExtendedRat) := by
    rw [← stored_of_units? hz]
    cases z with
    | nan => cases hfinite
    | infinite => cases hfinite
    | finite => rfl
  rw [compare?_eq (hpoint hx hs.isFinite) (hpoint hy ht.isFinite), Option.any_some,
    Bool.eq_iff_iff, Ordering.isGE_iff_ne_lt, decide_eq_true_iff, ← ne_eq, compare_ge_iff_ge,
    WithBot.coe_le_coe, WithTop.coe_le_coe, div_le_div_iff_of_pos_right hscale, Int.cast_le]

/-- Rounding does not lead below a number of the format. -/
theorem HasUnits.isGE_ofUnits (h : y.HasUnits false n) (hle : n ≤ num) :
    ((ofUnits false num 1 : Binary f).compare? y).any Ordering.isGE = true := by
  obtain ⟨bound, rfl, rfl⟩ := h
  have hscale : (0 : ℚ) < f.scale := by exact_mod_cast f.scale_pos
  have hnear := f.nearestRank_isNearestRank num Nat.one_pos
  have hrank : (bound : ℕ) ≤ f.nearestRank num 1 := by
    apply hnear.le_of_value_le
    rw [BinaryFormat.value, Nat.cast_one, one_mul]
    exact div_le_div_of_nonneg_right (by exact_mod_cast hle) hscale.le
  have hcompare {rank : ℕ} (hle : (bound : ℕ) ≤ rank) :
      (compare (rank : ℤ) ((bound : ℕ) : ℤ)).isGE = true := by
    rw [Ordering.isGE_iff_ne_lt, ← ne_eq, compare_ge_iff_ge]
    exact_mod_cast hle
  rw [ofUnits]
  split
  · exact hcompare hrank
  · exact hcompare bound.isLt.le

theorem hasUnits_half (f : BinaryFormat) :
    (ofRatio false 1 2 : Binary f).HasUnits false (2 ^ (f.unitBits - 1)) := by
  have hbinade := f.binade_pos
  have hsmall : 2 ^ (f.unitBits - 1) < f.units f.ranks :=
    (Nat.pow_le_pow_right (by decide) (Nat.sub_le _ _)).trans_lt f.scale_lt_units_ranks
  have hhalf : f.IsMagnitude (2 ^ (f.unitBits - 1)) := by
    have hpower := BinaryFormat.isMagnitude_mul_pow (f := f) (f.unitBits - 1) (k := 1) (by omega)
    rwa [Nat.one_mul] at hpower
  have hscale : 1 * f.scale = 2 ^ (f.unitBits - 1) * 2 := by
    have hbits : 0 < f.unitBits := by cases f <;> decide
    rw [Nat.two_pow_pred_mul_two hbits, Nat.one_mul]
    rfl
  rw [ofRatio, hscale]
  exact hasUnits_ofUnits_mul hhalf hsmall two_pos

theorem units?_one : (ofInt 1 : Binary f).units? = some (f.scale : ℤ) := by
  have hone : 1 * f.scale = f.scale := Nat.one_mul _
  have hunits : (ofInt 1 : Binary f).HasUnits false (1 * f.scale) :=
    hasUnits_ofUnits (hone.symm ▸ f.isMagnitude_scale) (hone.symm ▸ f.scale_lt_units_ranks)
  rw [hunits.units?, hone, if_neg Bool.false_ne_true]

/-- The whole number below a number is one of the format. -/
theorem floor_isMagnitude (hx : x.units? = some k) :
    f.IsMagnitude (k / f.scale * f.scale).natAbs ∧
      (k / f.scale * f.scale).natAbs < f.units f.ranks := by
  obtain ⟨hmagnitude, hlt⟩ := isMagnitude_of_units? hx
  by_cases h : (f.scale : ℤ) ∣ k
  · rw [Int.ediv_mul_cancel h]
    exact ⟨hmagnitude, hlt⟩
  · obtain ⟨hsmall, -⟩ := BinaryFormat.natAbs_floor_lt hmagnitude h
    exact ⟨BinaryFormat.isMagnitude_whole (by omega),
      BinaryFormat.whole_lt_units_ranks (by omega)⟩

/-- The magnitude of the whole number below a number is rounded up if the number is below zero. -/
theorem natAbs_floor (negative : Bool) (n : ℕ) {den : ℕ} (hden : 0 < den) {k : ℤ}
    (hk : k = if negative then -(n : ℤ) else n) :
    k / den * den = if negative then -(((n + den - 1) / den * den : ℕ) : ℤ)
      else ((n / den * den : ℕ) : ℤ) := by
  cases negative with
  | false =>
    rw [hk]
    simp
  | true =>
    have hlow := Nat.div_add_mod (n + den - 1) den
    have hmod := Nat.mod_lt (n + den - 1) hden
    rw [Nat.mul_comm] at hlow
    have hquotient : k / den = -((n + den - 1) / den : ℕ) := by
      rw [Int.ediv_eq_iff_of_pos (by exact_mod_cast hden), neg_mul, hk, if_pos rfl]
      constructor
      · have hle : n ≤ (n + den - 1) / den * den := by omega
        exact neg_le_neg (by exact_mod_cast hle)
      · have hless : (n + den - 1) / den * den < n + den := by omega
        have hcast : (((n + den - 1) / den : ℕ) : ℤ) * den < n + den := by exact_mod_cast hless
        omega
    rw [hquotient, if_pos rfl, Nat.cast_mul, neg_mul]

theorem units?_floor (hx : x.units? = some k) :
    x.floor.units? = some (k / f.scale * f.scale) := by
  obtain ⟨hmagnitude, hlt⟩ := floor_isMagnitude hx
  obtain ⟨negative, hunits, hk⟩ := exists_hasUnits_of_units? hx
  have hfloor := natAbs_floor negative k.natAbs f.scale_pos hk
  rw [hfloor] at hmagnitude hlt ⊢
  obtain ⟨rank, rfl, hrank⟩ := hunits
  rw [floor, roundMagnitude, ofRatio, hrank]
  cases negative with
  | false =>
    simp only [Bool.false_eq_true, if_false, Int.natAbs_natCast] at hmagnitude hlt ⊢
    rw [(hasUnits_ofUnits hmagnitude hlt).units?, if_neg Bool.false_ne_true]
  | true =>
    simp only [if_true, Int.natAbs_neg, Int.natAbs_natCast] at hmagnitude hlt ⊢
    rw [(hasUnits_ofUnits hmagnitude hlt).units?, if_pos rfl]

theorem truncateClamped_of_whole (low high : ℤ) (hx : x.units? = some (m * f.scale)) :
    x.truncateClamped low high = max low (min high m) := by
  have hscale : (f.scale : ℤ) ≠ 0 := by exact_mod_cast f.scale_pos.ne'
  cases x with
  | nan => cases hx
  | infinite => cases hx
  | finite negative rank =>
    have hunits := Option.some.inj hx
    have hwhole : (if negative then -((f.units rank : ℤ) / f.scale)
        else (f.units rank : ℤ) / f.scale) = m := by
      cases negative with
      | false =>
        rw [if_neg Bool.false_ne_true] at hunits ⊢
        rw [hunits, Int.mul_ediv_cancel _ hscale]
      | true =>
        rw [if_pos rfl] at hunits ⊢
        rw [← neg_eq_iff_eq_neg.mpr hunits.symm, ← neg_mul, Int.mul_ediv_cancel _ hscale, neg_neg]
    rw [truncateClamped, hwhole]

/-- The fraction is at least one half just if it is so before it is rounded: below one half it is
exact, and from there on it is not rounded below one half. -/
theorem isGE_fraction (hx : x.units? = some k) :
    ((x.sub x.floor).compare? (ofRatio false 1 2)).any Ordering.isGE =
      decide ((f.scale : ℤ) ≤ 2 * (k % f.scale)) := by
  have hscale : (0 : ℤ) < f.scale := by exact_mod_cast f.scale_pos
  have hnonneg := Int.emod_nonneg k hscale.ne'
  have hless := Int.emod_lt_of_pos k hscale
  have hfloor := units?_neg (units?_floor hx)
  have hfraction : k + -(k / f.scale * f.scale) = k % f.scale := by
    rw [Int.emod_def]
    ring
  have hhalf := hasUnits_half f
  have hdouble : (f.scale : ℤ) = 2 * (2 ^ (f.unitBits - 1) : ℕ) := by
    have hbits : 0 < f.unitBits := by cases f <;> decide
    rw [BinaryFormat.scale, Nat.pow_eq, ← Nat.two_pow_pred_mul_two hbits]
    push_cast
    ring
  obtain ⟨hmagnitude, hlt⟩ := isMagnitude_of_units? hx
  rcases Int.lt_or_le (2 * (k % f.scale)) f.scale with hlow | hhigh
  · have hexact := BinaryFormat.isMagnitude_fraction hmagnitude hlow
    have hsmall : (k % f.scale).natAbs < f.units f.ranks := by
      have hone := f.scale_lt_units_ranks
      omega
    rw [← hfraction] at hexact hsmall
    have hsub := units?_add hx hfloor hexact hsmall
    rw [hfraction] at hsub
    rw [Binary.sub, isGE_compare? hsub hhalf.units?, decide_eq_decide, if_neg Bool.false_ne_true]
    omega
  · rw [Binary.sub, add_eq hx hfloor, hfraction, if_neg (by omega), decide_eq_false (by omega),
      hhalf.isGE_ofUnits (by omega), decide_eq_true hhigh]

/-- A finite number is rounded as its exact value is, halfway cases to the one above. -/
theorem roundClamped_of_units? (low high : ℤ) (hx : x.units? = some k) :
    x.roundClamped low high = max low (min high
      (if (f.scale : ℤ) ≤ 2 * (k % f.scale) then k / f.scale + 1 else k / f.scale)) := by
  have hscale : (0 : ℤ) < f.scale := by exact_mod_cast f.scale_pos
  have hfloor := units?_floor hx
  rw [roundClamped]
  simp only [isGE_fraction hx, decide_eq_true_eq]
  split
  · rename_i hup
    have hnot : ¬(f.scale : ℤ) ∣ k := by
      intro hdvd
      rw [Int.emod_eq_zero_of_dvd hdvd] at hup
      omega
    obtain ⟨-, hsmall⟩ := BinaryFormat.natAbs_floor_lt (isMagnitude_of_units? hx).1 hnot
    have hsum : k / f.scale * f.scale + f.scale = (k / f.scale + 1) * f.scale := by ring
    have hnext := units?_add hfloor units?_one
      (hsum ▸ BinaryFormat.isMagnitude_whole (by omega))
      (hsum ▸ BinaryFormat.whole_lt_units_ranks (by omega))
    exact truncateClamped_of_whole low high (hsum ▸ hnext)
  · exact truncateClamped_of_whole low high hfloor

theorem floor_half_add (hx : x.units? = some k) :
    ⌊x.stored + 1 / 2⌋ =
      if (f.scale : ℤ) ≤ 2 * (k % f.scale) then k / f.scale + 1 else k / f.scale := by
  have hscale : (0 : ℤ) < f.scale := by exact_mod_cast f.scale_pos
  have hscaleQ : (0 : ℚ) < f.scale := by exact_mod_cast f.scale_pos
  have hless : ((k % f.scale : ℤ) : ℚ) < f.scale := by
    exact_mod_cast Int.emod_lt_of_pos k hscale
  have hnonneg : (0 : ℚ) ≤ (k % f.scale : ℤ) := by exact_mod_cast Int.emod_nonneg k hscale.ne'
  have hsplit : x.stored = (k / f.scale : ℤ) + ((k % f.scale : ℤ) : ℚ) / f.scale := by
    have hk : (k : ℚ) = (k / f.scale : ℤ) * f.scale + (k % f.scale : ℤ) := by
      exact_mod_cast (Int.ediv_mul_add_emod k f.scale).symm
    rw [stored_of_units? hx, add_div' _ _ _ hscaleQ.ne', ← hk]
  rw [Int.floor_eq_iff, hsplit]
  have hfraction : ((k % f.scale : ℤ) : ℚ) / f.scale < 1 := (div_lt_one hscaleQ).mpr hless
  have hzero : (0 : ℚ) ≤ ((k % f.scale : ℤ) : ℚ) / f.scale := div_nonneg hnonneg hscaleQ.le
  have hhalf : (1 / 2 : ℚ) ≤ ((k % f.scale : ℤ) : ℚ) / f.scale ↔
      (f.scale : ℤ) ≤ 2 * (k % f.scale) := by
    rw [le_div_iff₀ hscaleQ, div_mul_eq_mul_div, one_mul, div_le_iff₀ two_pos, mul_comm]
    exact_mod_cast Iff.rfl
  split
  · rename_i hup
    have hup := hhalf.mpr hup
    push_cast
    constructor <;> linarith
  · rename_i hdown
    have hdown := lt_of_not_ge (mt hhalf.mp hdown)
    constructor <;> linarith

/-- Rounding takes the whole number below `x + 1 / 2`, which is not formed, and clamps it. -/
theorem roundClamped_eq (low high : ℤ) (hx : x.isFinite) :
    x.roundClamped low high = max low (min high ⌊x.stored + 1 / 2⌋) := by
  obtain ⟨negative, n, hunits⟩ := exists_hasUnits hx
  rw [roundClamped_of_units? low high hunits.units?, floor_half_add hunits.units?]

end Binary

end Reckoner
