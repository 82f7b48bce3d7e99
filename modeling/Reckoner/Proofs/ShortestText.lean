import Reckoner.Proofs.BinaryNearest

namespace Reckoner

namespace BinaryFormat

variable {f : BinaryFormat} {rank : ℕ} {exponent : ℤ} {m : Magnitude}

/-- A decimal is read as the rank that is nearest to it. -/
theorem reads_iff : f.reads rank m = true ↔ f.IsNearestRank m.value rank := by
  have hnear := f.nearestRank_isNearestRank (m.coefficient * 10 ^ m.exponent.toNat * f.scale)
    (show 0 < 10 ^ (-m.exponent).toNat from Nat.pow_pos (by decide))
  have hscale : (f.scale : ℚ) ≠ 0 := by exact_mod_cast f.scale_pos.ne'
  rw [Nat.cast_mul _ f.scale, mul_div_mul_right _ _ hscale, ← m.value_ratio] at hnear
  rw [reads, beq_iff_eq]
  constructor
  · intro h
    rwa [← h]
  · exact hnear.unique

theorem value_expansion (f : BinaryFormat) (rank : ℕ) :
    (f.expansion rank).value = f.value rank := by
  have hscale : (f.scale : ℚ) = 2 ^ f.unitBits := by
    rw [scale, Nat.pow_eq, Nat.cast_pow, Nat.cast_ofNat]
  rw [Magnitude.value, expansion, value, hscale, zpow_neg, zpow_natCast, Nat.pow_eq]
  push_cast
  rw [show (10 : ℚ) ^ f.unitBits = 2 ^ f.unitBits * 5 ^ f.unitBits by rw [← mul_pow]; norm_num]
  field_simp

theorem isNearestRank_of_onGrid? (h : f.onGrid? rank exponent = some m) : f.IsNearestRank m.value rank := by
  apply reads_iff.mp
  unfold onGrid? at h
  dsimp only at h
  split at h
  · rename_i hbelow habove
    obtain rfl := Option.some.inj h
    split
    · exact hbelow
    · exact habove
  · rename_i hbelow _
    obtain rfl := Option.some.inj h
    exact hbelow
  · rename_i _ habove
    obtain rfl := Option.some.inj h
    exact habove
  · simp at h

theorem firstOnGrid_isNearestRank (f : BinaryFormat) (rank count : ℕ) :
    f.IsNearestRank (f.firstOnGrid rank count).value rank := by
  induction count with
  | zero =>
    rw [firstOnGrid, value_expansion]
    exact f.isNearestRank_value rank
  | succ count ih =>
    rw [firstOnGrid]
    split
    · rename_i hgrid
      exact isNearestRank_of_onGrid? hgrid
    · exact ih

/-- The shortest digits of a number are nearest to that number. -/
theorem shortest_isNearestRank (f : BinaryFormat) (rank : ℕ) :
    f.IsNearestRank (f.shortest rank).value rank := by
  unfold shortest
  split
  · rename_i hzero
    have hvalue : (Magnitude.mk 0 0).value = f.value 0 := by simp [Magnitude.value]
    rw [hzero, hvalue]
    exact f.isNearestRank_value 0
  · rw [Magnitude.value_strip]
    exact f.firstOnGrid_isNearestRank rank _

theorem value_shortest_pos (hrank : rank ≠ 0) : 0 < (f.shortest rank).value :=
  (f.shortest_isNearestRank rank).pos (f.shortest rank).value_nonneg hrank

theorem value_shortest (hrank : rank ≠ 0) :
    (f.shortest rank).value =
      (f.firstOnGrid rank (f.coarseGrid rank + f.unitBits).toNat).value := by
  rw [shortest, if_neg hrank, Magnitude.value_strip]

/-- Whole numbers are magnitudes themselves as far as the significand reaches. -/
theorem value_of_isNearestRank {whole : ℕ} (h : f.IsNearestRank whole rank) :
    f.value rank = whole ∨ (2 * f.binade : ℕ) ≤ f.value rank := by
  rcases Nat.le_total whole (2 * f.binade) with hle | hle
  · obtain ⟨other, hother⟩ := f.exists_value_eq hle
    have hself := f.isNearestRank_value other
    rw [hother] at hself
    rw [h.unique hself, hother]
    exact Or.inl rfl
  · obtain ⟨bound, hbound⟩ := f.exists_value_eq (Nat.le_refl (2 * f.binade))
    have hbelow := h.le_of_value_le (hbound.trans_le (by exact_mod_cast hle))
    exact Or.inr (hbound.symm.trans_le (f.value_strictMono.monotone hbelow))

theorem exponent_of_onGrid? (h : f.onGrid? rank exponent = some m) : m.exponent = exponent := by
  unfold onGrid? at h
  dsimp only at h
  split at h
  · obtain rfl := Option.some.inj h
    split <;> rfl
  · obtain rfl := Option.some.inj h
    rfl
  · obtain rfl := Option.some.inj h
    rfl
  · simp at h

/-- On a grid of whole numbers only the number itself is read as one within the significand. -/
theorem value_onGrid?_of_whole {k : ℕ} (h : f.onGrid? rank exponent = some m)
    (hexponent : 0 ≤ exponent) (hrank : f.value rank = k) (hk : k < 2 * f.binade) :
    m.value = k := by
  have hwhole : m.value = (m.coefficient * 10 ^ m.exponent.toNat : ℕ) := by
    rw [m.value_ratio, exponent_of_onGrid? h, show (-exponent).toNat = 0 by omega, pow_zero,
      Nat.cast_one, div_one]
  have hnear := isNearestRank_of_onGrid? h
  rw [hwhole] at hnear ⊢
  rcases value_of_isNearestRank hnear with hvalue | hlarge
  · rw [← hvalue, hrank]
  · rw [hrank, Nat.cast_le] at hlarge
    omega

theorem units_of_whole {k : ℕ} (hrank : f.value rank = k) : f.units rank = k * f.scale := by
  rw [value, div_eq_iff (by exact_mod_cast f.scale_pos.ne')] at hrank
  exact_mod_cast hrank

/-- A magnitude in steps of a power of ten, as a ratio of whole numbers. -/
theorem value_eq_steps (f : BinaryFormat) (rank : ℕ) (exponent : ℤ) :
    f.value rank = ((f.units rank * Nat.pow 10 (-exponent).toNat : ℕ) : ℚ) /
      (f.scale * Nat.pow 10 exponent.toNat : ℕ) * 10 ^ exponent := by
  have hscale : (f.scale : ℚ) ≠ 0 := by exact_mod_cast f.scale_pos.ne'
  rw [value, ten_zpow_ratio, Nat.pow_eq, Nat.pow_eq]
  push_cast
  field_simp

/-- The multiple of a power of ten that is next to a magnitude from below, in steps. -/
def stepsBelow (f : BinaryFormat) (rank : ℕ) (exponent : ℤ) : ℕ :=
  f.units rank * Nat.pow 10 (-exponent).toNat / (f.scale * Nat.pow 10 exponent.toNat)

/-- Where a magnitude stands between two multiples, and which of the two is nearer. -/
theorem stepsBelow_spec (f : BinaryFormat) (rank : ℕ) (exponent : ℤ) :
    f.stepsBelow rank exponent * 10 ^ exponent ≤ f.value rank ∧
      f.value rank < (f.stepsBelow rank exponent + 1) * 10 ^ exponent ∧
      (2 * (f.units rank * Nat.pow 10 (-exponent).toNat % (f.scale * Nat.pow 10 exponent.toNat)) <
          f.scale * Nat.pow 10 exponent.toNat ↔
        2 * f.value rank < (2 * f.stepsBelow rank exponent + 1) * 10 ^ exponent) := by
  have hstep := ten_zpow_pos exponent
  have hvalue := f.value_eq_steps rank exponent
  have hden : 0 < f.scale * Nat.pow 10 exponent.toNat :=
    Nat.mul_pos f.scale_pos (Nat.pow_pos (by decide))
  unfold stepsBelow
  generalize f.units rank * Nat.pow 10 (-exponent).toNat = num at hvalue ⊢
  generalize f.scale * Nat.pow 10 exponent.toNat = den at hvalue hden ⊢
  have hdenQ : (0 : ℚ) < den := by exact_mod_cast hden
  have hsplit := ratio_split num hden
  have hrest : ((num % den : ℕ) : ℚ) / den < 1 := by
    rw [div_lt_one hdenQ]
    exact_mod_cast Nat.mod_lt num hden
  have hnonneg : 0 ≤ ((num % den : ℕ) : ℚ) / den := by positivity
  rw [hvalue, hsplit]
  refine ⟨mul_le_mul_of_nonneg_right (by linarith) hstep.le,
    mul_lt_mul_of_pos_right (by linarith) hstep, ?_⟩
  rw [← mul_assoc, mul_lt_mul_iff_left₀ hstep, mul_add, add_lt_add_iff_left, ← mul_div_assoc,
    div_lt_one hdenQ]
  exact_mod_cast Iff.rfl

/-- All other multiples are beyond the two that are next to the magnitude. -/
theorem exists_next (f : BinaryFormat) (rank : ℕ) (exponent : ℤ) (steps : ℕ) :
    ∃ next : ℕ, (next = f.stepsBelow rank exponent ∨ next = f.stepsBelow rank exponent + 1) ∧
      |f.value rank - next * 10 ^ exponent| +
        |next * 10 ^ exponent - (steps : ℚ) * 10 ^ exponent| =
          |f.value rank - steps * 10 ^ exponent| := by
  obtain ⟨hlow, hhigh, _⟩ := f.stepsBelow_spec rank exponent
  have hstep := ten_zpow_pos exponent
  rcases Nat.lt_or_ge (f.stepsBelow rank exponent) steps with hlt | hle
  · have hcast : ((f.stepsBelow rank exponent + 1 : ℕ) : ℚ) * 10 ^ exponent ≤
        steps * 10 ^ exponent :=
      mul_le_mul_of_nonneg_right (by exact_mod_cast hlt) hstep.le
    refine ⟨_, Or.inr rfl, ?_⟩
    push_cast at hcast ⊢
    rw [abs_of_nonpos (by linarith), abs_of_nonpos (by linarith), abs_of_nonpos (by linarith)]
    ring
  · have hcast : (steps : ℚ) * 10 ^ exponent ≤ f.stepsBelow rank exponent * 10 ^ exponent :=
      mul_le_mul_of_nonneg_right (by exact_mod_cast hle) hstep.le
    refine ⟨_, Or.inl rfl, ?_⟩
    rw [abs_of_nonneg (by linarith), abs_of_nonneg (by linarith), abs_of_nonneg (by linarith)]
    ring

/-- Whatever multiple is read back, the search on its grid ends with one. -/
theorem exists_onGrid? {steps : ℕ} (hsteps : f.IsNearestRank (steps * 10 ^ exponent) rank) :
    ∃ m, f.onGrid? rank exponent = some m := by
  obtain ⟨next, hnext, hbetween⟩ := f.exists_next rank exponent steps
  have hreads : f.reads rank ⟨next, exponent⟩ = true :=
    reads_iff.mpr (hsteps.of_between hbetween)
  unfold onGrid?
  dsimp only
  rw [← stepsBelow]
  split
  · exact ⟨_, rfl⟩
  · exact ⟨_, rfl⟩
  · exact ⟨_, rfl⟩
  · rename_i hbelow habove
    rcases hnext with rfl | rfl
    · exact absurd hreads (by simp [hbelow])
    · exact absurd hreads (by simp [habove])

/-- The search for a whole number ends on the grid of whole numbers, if not before. -/
theorem value_firstOnGrid_of_whole {k : ℕ} (hrank : f.value rank = k) (hk : k < 2 * f.binade)
    (count : ℕ) : (f.firstOnGrid rank (f.unitBits + count)).value = k := by
  induction count with
  | zero =>
    obtain ⟨last, hlast⟩ : ∃ last, f.unitBits = last + 1 := by cases f <;> exact ⟨_, rfl⟩
    have hself : f.IsNearestRank (k * 10 ^ (0 : ℤ)) rank := by
      rw [zpow_zero, mul_one, ← hrank]
      exact f.isNearestRank_value rank
    obtain ⟨m, hm⟩ := exists_onGrid? hself
    have hgrid : (last + 1 - f.unitBits : ℤ) = 0 := by omega
    rw [Nat.add_zero, hlast, firstOnGrid, hgrid, hm]
    exact value_onGrid?_of_whole hm (le_refl 0) hrank hk
  | succ count ih =>
    rw [← Nat.add_assoc, firstOnGrid]
    split
    · rename_i m hm
      exact value_onGrid?_of_whole hm (by omega) hrank hk
    · exact ih

theorem value_top (f : BinaryFormat) :
    f.value (f.unitBits * f.binade + 2 * f.binade) = (2 * f.binade : ℕ) := by
  have hlow : f.binade ≤ 2 * f.binade := Nat.le_mul_of_pos_left _ two_pos
  rw [value, f.units_block f.unitBits (Or.inr hlow) (Nat.le_refl _), Nat.cast_mul]
  exact mul_div_cancel_right₀ _ (by exact_mod_cast f.scale_pos.ne')

/-- The first number past the whole significands could be read from its successor, which is as long
as the number itself. -/
theorem value_firstOnGrid_top (f : BinaryFormat) :
    (f.firstOnGrid (f.unitBits * f.binade + 2 * f.binade)
      (f.unitBits + decimalLength (2 * f.binade))).value = (2 * f.binade : ℕ) := by
  have hgrid : f.firstOnGrid (f.unitBits * f.binade + 2 * f.binade)
      (f.unitBits + decimalLength (2 * f.binade)) = ⟨2 * f.binade, 0⟩ := by
    cases f <;> decide +kernel
  rw [hgrid, Magnitude.value, zpow_zero, mul_one]

/-- The whole numbers are written exactly as far as the significand reaches. -/
theorem value_shortest_of_whole {k : ℕ} (hrank : f.value rank = k) (hk : k ≤ 2 * f.binade) :
    (f.shortest rank).value = k := by
  by_cases hzero : rank = 0
  · rw [hzero, value_zero] at hrank
    rw [hzero, shortest, if_pos rfl, Magnitude.value, ← hrank]
    simp
  · have hpos : k ≠ 0 := by
      rintro rfl
      exact hzero (f.value_strictMono.injective (hrank.trans (by simp)))
    have hunits : f.units rank / f.scale = k := by
      rw [units_of_whole hrank, Nat.mul_div_cancel _ f.scale_pos]
    have hcount : (f.coarseGrid rank + f.unitBits).toNat = f.unitBits + decimalLength k := by
      rw [coarseGrid, hunits, if_neg hpos]
      omega
    rw [value_shortest hzero, hcount]
    rcases hk.lt_or_eq with hlt | rfl
    · exact value_firstOnGrid_of_whole hrank hlt _
    · obtain rfl := f.value_strictMono.injective (hrank.trans f.value_top.symm)
      exact f.value_firstOnGrid_top

/-- What is nearest to a rank is not before the middle of any two below. -/
theorem IsNearestRank.middle_le {x : ℚ} {low : ℕ} (h : f.IsNearestRank x rank) (hlow : low < rank) :
    f.value low + f.value (low + 1) ≤ 2 * x := by
  have hmono := f.value_strictMono.monotone (show low + 1 ≤ rank from hlow)
  have hstep := f.value_strictMono (show low < low + 1 by omega)
  have hnear := h.near low
  rcases abs_cases (f.value rank - x) with hr | hr <;>
    rcases abs_cases (f.value low - x) with hl | hl <;> linarith

/-- The least double is written with a single digit. -/
theorem shortest_one : double.shortest 1 = ⟨5, -324⟩ := by
  have hfirst : double.firstOnGrid 1 (double.coarseGrid 1 + double.unitBits).toNat = ⟨5, -324⟩ := by
    decide +kernel
  rw [shortest, if_neg one_ne_zero, hfirst, Magnitude.strip]
  simp

theorem le_single_digit {places : ℕ} (h : 3 * Nat.pow 10 places ≤ 20 * f.scale) :
    3 / 4 * f.value 1 ≤ (Magnitude.mk 5 (-places)).value := by
  have hcast : 3 * (10 : ℚ) ^ places ≤ 20 * f.scale := by exact_mod_cast h
  have hscale : (0 : ℚ) < f.scale := by exact_mod_cast f.scale_pos
  rw [value_one, Magnitude.value, zpow_neg, zpow_natCast, mul_one_div, ← div_eq_mul_inv,
    div_le_div_iff₀ hscale (by positivity)]
  push_cast
  linarith

/-- The digits of a double are not far below it, also where they are few. -/
theorem le_shortest (hrank : rank ≠ 0) :
    3 / 4 * double.value 1 ≤ (double.shortest rank).value := by
  have hpos : 0 < double.value 1 := by
    rw [value_one]
    exact one_div_pos.mpr (by exact_mod_cast double.scale_pos)
  rcases Nat.lt_or_ge 1 rank with hlarge | hone
  · have hmiddle := (double.shortest_isNearestRank rank).middle_le hlarge
    have hstep := double.value_strictMono (show 1 < 1 + 1 by omega)
    linarith
  · obtain rfl : rank = 1 := by omega
    rw [shortest_one]
    exact le_single_digit (by decide +kernel)

end BinaryFormat

end Reckoner
