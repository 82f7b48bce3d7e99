import Reckoner.Proofs.Middles

namespace Reckoner

namespace BinaryFormat

variable {f : BinaryFormat} {rank : ℕ} {exponent : ℤ} {m : Magnitude} {x y : ℚ}

/-- The first of two numbers is nearer to a magnitude, or as near and not the lower one. -/
def Nearer (f : BinaryFormat) (rank : ℕ) (x y : ℚ) : Prop :=
  |x - f.value rank| < |y - f.value rank| ∨
    |x - f.value rank| = |y - f.value rank| ∧ y ≤ x

/-- Digits that are read as a magnitude. Of all those the last one stands as far to the left as
possible, and the number is the nearest with such a last digit, the upper one of two as near. -/
structure IsShortest (f : BinaryFormat) (rank : ℕ) (m : Magnitude) : Prop where
  isNearestRank : f.IsNearestRank m.value rank
  coarsest : ∀ other : Magnitude, f.IsNearestRank other.value rank → other.exponent ≤ m.exponent
  nearer : ∀ other : Magnitude, f.IsNearestRank other.value rank →
    other.exponent = m.exponent → f.Nearer rank m.value other.value

theorem Nearer.refl : f.Nearer rank x x :=
  Or.inr ⟨rfl, le_refl x⟩

theorem Nearer.abs_le (h : f.Nearer rank x y) : |x - f.value rank| ≤ |y - f.value rank| := by
  rcases h with hlt | ⟨heq, -⟩
  · exact hlt.le
  · exact heq.le

theorem Nearer.antisymm (hxy : f.Nearer rank x y) (hyx : f.Nearer rank y x) : x = y := by
  rcases hxy with hlt | ⟨heq, hle⟩
  · exact absurd hyx.abs_le (not_le.mpr hlt)
  · rcases hyx with hlt | ⟨-, hge⟩
    · exact absurd heq hlt.ne'
    · exact le_antisymm hge hle

/-- No number with as few places is read back and nearer than the shortest digits are. -/
theorem IsShortest.abs_le (h : f.IsShortest rank m) {other : Magnitude}
    (hexponent : m.exponent ≤ other.exponent) (hother : f.IsNearestRank other.value rank) :
    |m.value - f.value rank| ≤ |other.value - f.value rank| :=
  (h.nearer other hother (le_antisymm (h.coarsest other hother) hexponent)).abs_le

/-- Zero is read from any number of zeros. -/
theorem IsShortest.rank_ne_zero (h : f.IsShortest rank m) : rank ≠ 0 := by
  rintro rfl
  have hzero : (Magnitude.mk 0 (m.exponent + 1)).value = f.value 0 := by
    rw [value_zero, Magnitude.value_eq_zero_iff]
  have hcoarse := h.coarsest _ (hzero ▸ f.isNearestRank_value 0)
  simp at hcoarse

theorem IsShortest.coefficient_ne_zero (h : f.IsShortest rank m) : m.coefficient ≠ 0 := by
  rw [Ne, ← Magnitude.value_eq_zero_iff]
  exact (h.isNearestRank.pos m.value_nonneg h.rank_ne_zero).ne'

/-- There is one way to write a magnitude in the shortest digits. -/
theorem IsShortest.unique {n : Magnitude} (hm : f.IsShortest rank m) (hn : f.IsShortest rank n) :
    m = n := by
  have hexponent : n.exponent = m.exponent :=
    le_antisymm (hm.coarsest n hn.isNearestRank) (hn.coarsest m hm.isNearestRank)
  have hvalue : m.value = n.value :=
    (hm.nearer n hn.isNearestRank hexponent).antisymm
      (hn.nearer m hm.isNearestRank hexponent.symm)
  rw [Magnitude.value, Magnitude.value, hexponent,
    mul_left_inj' (ten_zpow_pos m.exponent).ne', Nat.cast_inj] at hvalue
  cases m
  cases n
  rw [Magnitude.mk.injEq]
  exact ⟨hvalue, hexponent.symm⟩

/-- A last digit as far to the left as possible leaves the fewest digits. Fewer ones would be below a
power of ten that is read as the same magnitude. -/
theorem IsShortest.decimalLength_le (h : f.IsShortest rank m) {other : Magnitude}
    (hother : f.IsNearestRank other.value rank) :
    decimalLength m.coefficient ≤ decimalLength other.coefficient := by
  by_contra hless
  have hexponent := h.coarsest other hother
  let lead : Magnitude := ⟨1, decimalLength m.coefficient + m.exponent - 1⟩
  have hlead : lead.value = 10 ^ (decimalLength m.coefficient + m.exponent - 1 : ℤ) := by
    rw [Magnitude.value, Nat.cast_one, one_mul]
  have hlow : other.value ≤ lead.value := by
    rw [hlead]
    exact other.value_lt.le.trans (zpow_le_zpow_right₀ (by norm_num) (by omega))
  have hhigh : lead.value ≤ m.value := by
    rw [hlead]
    exact Magnitude.le_value h.coefficient_ne_zero
  have hcoarse := h.coarsest lead (hother.of_le_of_le h.isNearestRank hlow hhigh)
  have hpos := decimalLength_pos other.coefficient
  simp only [lead] at hcoarse
  omega

/-- Of the two multiples next to a magnitude the search takes the nearer one that is read back. -/
theorem onGrid?_near (h : f.onGrid? rank exponent = some m) {steps : ℕ}
    (hnext : steps = f.stepsBelow rank exponent ∨ steps = f.stepsBelow rank exponent + 1)
    (hsteps : f.IsNearestRank (steps * 10 ^ exponent) rank) :
    f.Nearer rank m.value (steps * 10 ^ exponent) := by
  obtain ⟨hlow, hhigh, hnearer⟩ := f.stepsBelow_spec rank exponent
  have hreads : f.reads rank ⟨steps, exponent⟩ = true := reads_iff.mpr hsteps
  unfold onGrid? at h
  dsimp only at h
  rw [← stepsBelow] at h
  split at h
  · obtain rfl := Option.some.inj h
    have hbelow : |(f.stepsBelow rank exponent * 10 ^ exponent : ℚ) - f.value rank| =
        f.value rank - f.stepsBelow rank exponent * 10 ^ exponent := by
      rw [abs_of_nonpos (by linarith), neg_sub]
    have habove : |((f.stepsBelow rank exponent + 1 : ℕ) * 10 ^ exponent : ℚ) - f.value rank| =
        (f.stepsBelow rank exponent + 1 : ℕ) * 10 ^ exponent - f.value rank := by
      push_cast
      exact abs_of_pos (by linarith)
    split
    · rename_i hmiddle
      have hmiddle := hnearer.mp hmiddle
      rcases hnext with rfl | rfl
      · exact .refl
      · left
        rw [Magnitude.value, hbelow, habove]
        push_cast
        linarith
    · rename_i hmiddle
      have hmiddle := not_lt.mp (mt hnearer.mpr hmiddle)
      rcases hnext with rfl | rfl
      · rw [Nearer, Magnitude.value, hbelow, habove]
        push_cast
        rcases lt_or_eq_of_le hmiddle with hlt | heq
        · left
          linarith
        · right
          constructor <;> linarith
      · exact .refl
  · rename_i hno
    obtain rfl := Option.some.inj h
    rcases hnext with rfl | rfl
    · exact .refl
    · exact absurd hreads (by simp [hno])
  · rename_i hno _
    obtain rfl := Option.some.inj h
    rcases hnext with rfl | rfl
    · exact absurd hreads (by simp [hno])
    · exact .refl
  · simp at h

theorem onGrid?_nearer (h : f.onGrid? rank exponent = some m) {steps : ℕ}
    (hsteps : f.IsNearestRank (steps * 10 ^ exponent) rank) :
    f.Nearer rank m.value (steps * 10 ^ exponent) := by
  obtain ⟨next, hnext, hbetween⟩ := f.exists_next rank exponent steps
  have hnear := onGrid?_near h hnext (hsteps.of_between hbetween)
  rcases eq_or_ne (next * 10 ^ exponent : ℚ) (steps * 10 ^ exponent) with hsame | hne
  · rwa [hsame] at hnear
  · have hgap : 0 < |(next * 10 ^ exponent : ℚ) - steps * 10 ^ exponent| :=
      abs_pos.mpr (sub_ne_zero.mpr hne)
    have hle := hnear.abs_le
    rw [abs_sub_comm (next * 10 ^ exponent : ℚ)] at hle
    left
    rw [abs_sub_comm (steps * 10 ^ exponent : ℚ), ← hbetween]
    linarith

/-- A number of places is a multiple of the last of them and of any after that. -/
theorem value_eq_mul {low : ℤ} (h : low ≤ m.exponent) :
    m.value = ((m.coefficient * 10 ^ (m.exponent - low).toNat : ℕ) : ℚ) * 10 ^ low := by
  rw [Magnitude.value, ten_zpow_split h, ← mul_assoc, Nat.cast_mul]

/-- The search ends with the nearest number of its own grid and of the coarser ones. -/
theorem firstOnGrid_nearer (f : BinaryFormat) (rank count : ℕ)
    (hexponent : (f.firstOnGrid rank count).exponent ≤ m.exponent)
    (hm : f.IsNearestRank m.value rank) :
    f.Nearer rank (f.firstOnGrid rank count).value m.value := by
  induction count with
  | zero =>
    rw [firstOnGrid, value_expansion]
    rcases eq_or_ne m.value (f.value rank) with heq | hne
    · rw [heq]
      exact .refl
    · left
      rw [sub_self, abs_zero]
      exact abs_pos.mpr (sub_ne_zero.mpr hne)
  | succ count ih =>
    rw [firstOnGrid] at hexponent ⊢
    split
    · rename_i found hfound
      simp only [hfound] at hexponent
      rw [value_eq_mul hexponent, exponent_of_onGrid? hfound] at hm ⊢
      exact onGrid?_nearer hfound hm
    · rename_i hnone
      simp only [hnone] at hexponent
      exact ih hexponent

/-- The search passes no grid on which a number is read back. -/
theorem le_exponent_firstOnGrid (f : BinaryFormat) (rank count : ℕ)
    (hm : f.IsNearestRank m.value rank) (hexponent : m.exponent ≤ count - f.unitBits) :
    m.exponent ≤ (f.firstOnGrid rank count).exponent := by
  induction count with
  | zero =>
    rw [firstOnGrid, expansion]
    simpa using hexponent
  | succ count ih =>
    push_cast at hexponent
    rw [firstOnGrid]
    split
    · rename_i found hfound
      rwa [exponent_of_onGrid? hfound]
    · rename_i hnone
      apply ih
      by_contra hgrid
      have hhit : ∃ found, f.onGrid? rank m.exponent = some found := exists_onGrid? hm
      rw [show m.exponent = count + 1 - f.unitBits by omega, hnone] at hhit
      simp at hhit

/-- The magnitudes from the first on are no more than doubled by a step. -/
theorem value_succ_le (f : BinaryFormat) (hrank : rank ≠ 0) :
    f.value (rank + 1) ≤ 2 * f.value rank := by
  have hunits : f.units (rank + 1) ≤ 2 * f.units rank := by
    obtain ⟨shift, k, rfl, hlow, hhigh⟩ := f.exists_block rank
    have hb := f.binade_pos
    have hk : k ≠ 0 := by
      rintro rfl
      rcases hlow with rfl | hlow
      · simp at hrank
      · omega
    rw [f.units_block shift hlow (by omega), Nat.add_assoc,
      f.units_block shift (hlow.imp id (by omega)) hhigh, ← Nat.mul_assoc]
    exact Nat.mul_le_mul_right _ (by omega)
  rw [value, value, ← mul_div_assoc]
  exact div_le_div_of_nonneg_right (by exact_mod_cast hunits) (Nat.cast_nonneg _)

/-- A part of a number is within a power of ten of it that the digits of their quotient give. -/
theorem le_of_quotient {part whole : ℕ} (hpart : 0 < part) (h : part ≤ whole) :
    (part : ℚ) ≤ 10 ^ (1 - decimalLength (whole / part) : ℤ) * whole := by
  have hlength := decimalLength_pos (whole / part)
  have hquotient := ten_pow_le_of_decimalLength (Nat.div_pos h hpart).ne'
  have hwhole : 10 ^ (decimalLength (whole / part) - 1) * part ≤ whole :=
    (Nat.mul_le_mul_right part hquotient).trans (Nat.div_mul_le_self whole part)
  have hinverse : (10 : ℚ) ^ (1 - decimalLength (whole / part) : ℤ) *
      10 ^ (decimalLength (whole / part) - 1) = 1 := by
    rw [← zpow_natCast, ← zpow_add₀ (by norm_num), show (1 - decimalLength (whole / part) : ℤ) +
      (decimalLength (whole / part) - 1 : ℕ) = 0 by omega, zpow_zero]
  calc (part : ℚ) = 10 ^ (1 - decimalLength (whole / part) : ℤ) *
        (10 ^ (decimalLength (whole / part) - 1) * part) := by
        rw [← mul_assoc, hinverse, one_mul]
    _ ≤ 10 ^ (1 - decimalLength (whole / part) : ℤ) * whole :=
      mul_le_mul_of_nonneg_left (by exact_mod_cast hwhole) (ten_zpow_pos _).le

theorem value_le_coarseGrid (f : BinaryFormat) (rank : ℕ) :
    f.value rank ≤ 10 ^ f.coarseGrid rank := by
  have hscale : (0 : ℚ) < f.scale := by exact_mod_cast f.scale_pos
  rw [value, coarseGrid, div_le_iff₀ hscale]
  split
  · rename_i hwhole
    have hless := (Nat.div_eq_zero_iff_lt f.scale_pos).mp hwhole
    rcases Nat.eq_zero_or_pos (f.units rank) with hzero | hpos
    · rw [hzero, Nat.cast_zero]
      exact mul_nonneg (ten_zpow_pos _).le hscale.le
    · refine (le_of_quotient hpos hless.le).trans (mul_le_mul_of_nonneg_right ?_ hscale.le)
      exact zpow_le_zpow_right₀ (by norm_num) (by omega)
  · rename_i hwhole
    have hlt : f.units rank < (f.units rank / f.scale + 1) * f.scale :=
      Nat.lt_mul_of_div_lt (Nat.lt_succ_self _) f.scale_pos
    have hlength := lt_ten_pow_decimalLength (f.units rank / f.scale)
    rw [zpow_natCast]
    exact_mod_cast hlt.le.trans (Nat.mul_le_mul_right _ hlength)

/-- No multiple of a power of ten past the coarsest grid is read as a magnitude other than zero. -/
theorem exponent_le_coarseGrid (hrank : rank ≠ 0) (hm : f.IsNearestRank m.value rank) :
    m.exponent ≤ f.coarseGrid rank := by
  by_contra hlt
  have hcoefficient : m.coefficient ≠ 0 := by
    rw [Ne, ← Magnitude.value_eq_zero_iff]
    exact (hm.pos m.value_nonneg hrank).ne'
  have hlow : 10 ^ m.exponent ≤ m.value := by
    refine le_mul_of_one_le_left (ten_zpow_pos _).le ?_
    exact_mod_cast Nat.one_le_iff_ne_zero.mpr hcoefficient
  have hstep : 10 * 10 ^ f.coarseGrid rank ≤ (10 : ℚ) ^ m.exponent := by
    rw [← zpow_one_add₀ (by norm_num)]
    exact zpow_le_zpow_right₀ (by norm_num) (by omega)
  have hmiddle := hm.le_middle
  have hnext := f.value_succ_le hrank
  have hvalue := f.value_le_coarseGrid rank
  have hpos := ten_zpow_pos (f.coarseGrid rank)
  rw [middle] at hmiddle
  linarith

/-- Every magnitude but zero is written in its shortest digits. -/
theorem shortest_isShortest (f : BinaryFormat) (hrank : rank ≠ 0) :
    f.IsShortest rank (f.shortest rank) := by
  have hgrid : (f.firstOnGrid rank (f.coarseGrid rank + f.unitBits).toNat).exponent ≤
      (f.shortest rank).exponent := by
    rw [shortest, if_neg hrank]
    refine Magnitude.le_exponent_strip_of_ne fun hzero => ?_
    have hpos : 0 < (f.shortest rank).value := value_shortest_pos hrank
    rw [value_shortest hrank, Magnitude.value_eq_zero_iff.mpr hzero] at hpos
    exact lt_irrefl _ hpos
  refine ⟨f.shortest_isNearestRank rank, fun other hother => ?_, fun other hother hsame => ?_⟩
  · have hcoarse := exponent_le_coarseGrid hrank hother
    exact (f.le_exponent_firstOnGrid rank _ hother (by omega)).trans hgrid
  · rw [value_shortest hrank]
    exact f.firstOnGrid_nearer rank _ (hgrid.trans hsame.ge) hother

end BinaryFormat

end Reckoner
