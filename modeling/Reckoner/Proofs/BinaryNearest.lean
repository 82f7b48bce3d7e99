import Reckoner.Proofs.DecimalValue
import Reckoner.Proofs.Rounding

namespace Reckoner

namespace BinaryFormat

variable (f : BinaryFormat)

theorem binade_pos : 0 < f.binade :=
  Nat.two_pow_pos _

theorem binade_even : f.binade % 2 = 0 := by
  cases f <;> decide

theorem scale_pos : 0 < f.scale :=
  Nat.two_pow_pos _

/-- A rank is told by the doublings of its spacing and by its significand; the significand may be
the full binade above, which is the same rank as the next doubling has at its start. -/
theorem units_block (shift : ℕ) {k : ℕ} (hlow : shift = 0 ∨ f.binade ≤ k)
    (hhigh : k ≤ 2 * f.binade) : f.units (shift * f.binade + k) = k * 2 ^ shift := by
  have hb := f.binade_pos
  unfold units
  rcases Nat.lt_or_ge k f.binade with hk | hk
  · have hs : shift = 0 := by omega
    subst hs
    simp [hk]
  · rw [if_neg (Nat.not_lt.mpr (Nat.le_trans hk (Nat.le_add_left _ _)))]
    rcases Nat.lt_or_ge k (2 * f.binade) with hk2 | hk2
    · have hsplit : shift * f.binade + k = (k - f.binade) + f.binade * (shift + 1) := by
        rw [Nat.mul_add, Nat.mul_comm f.binade shift]
        omega
      rw [hsplit, Nat.add_mul_mod_self_left, Nat.add_mul_div_left _ _ hb,
        Nat.mod_eq_of_lt (by omega), Nat.div_eq_of_lt (by omega), Nat.zero_add,
        Nat.add_sub_cancel, Nat.pow_eq]
      congr 1
      omega
    · have hsplit : shift * f.binade + k = f.binade * (shift + 2) := by
        rw [Nat.mul_add, Nat.mul_comm f.binade shift]
        omega
      rw [hsplit, Nat.mul_mod_right, Nat.mul_div_cancel_left _ hb, Nat.pow_eq,
        show shift + 2 - 1 = shift + 1 by omega, Nat.pow_succ, show k = 2 * f.binade by omega]
      ring

theorem units_of_le {k : ℕ} (h : k ≤ 2 * f.binade) : f.units k = k := by
  have hunits := f.units_block 0 (Or.inl rfl) h
  rwa [Nat.zero_mul, Nat.zero_add, Nat.pow_zero, Nat.mul_one] at hunits

/-- Every rank stands in a block with the next one. -/
theorem exists_block (rank : ℕ) : ∃ shift k, rank = shift * f.binade + k ∧
    (shift = 0 ∨ f.binade ≤ k) ∧ k + 1 ≤ 2 * f.binade := by
  have hb := f.binade_pos
  rcases Nat.lt_or_ge rank f.binade with h | h
  · exact ⟨0, rank, by omega, Or.inl rfl, by omega⟩
  · refine ⟨rank / f.binade - 1, f.binade + rank % f.binade, ?_, Or.inr (by omega), ?_⟩
    · have hdiv : 1 ≤ rank / f.binade := (Nat.le_div_iff_mul_le hb).mpr (by omega)
      have hmod := Nat.div_add_mod rank f.binade
      obtain ⟨q, hq⟩ : ∃ q, rank / f.binade = q + 1 := ⟨rank / f.binade - 1, by omega⟩
      rw [hq] at hmod ⊢
      rw [Nat.mul_add, Nat.mul_one, Nat.mul_comm] at hmod
      rw [Nat.add_sub_cancel]
      omega
    · have := Nat.mod_lt rank hb
      omega

theorem units_lt_succ (rank : ℕ) : f.units rank < f.units (rank + 1) := by
  obtain ⟨shift, k, rfl, hlow, hhigh⟩ := f.exists_block rank
  rw [f.units_block shift hlow (by omega), Nat.add_assoc,
    f.units_block shift (hlow.imp id (by omega)) hhigh]
  exact Nat.mul_lt_mul_of_pos_right (Nat.lt_succ_self k) (Nat.two_pow_pos shift)

theorem units_strictMono : StrictMono f.units :=
  strictMono_nat_of_lt_succ f.units_lt_succ

/-- The magnitude of a rank. Ranks past the last finite one go on in the same way. -/
def value (rank : ℕ) : ℚ :=
  f.units rank / f.scale

theorem value_strictMono : StrictMono f.value := by
  intro a b h
  have hs : (0 : ℚ) < f.scale := by exact_mod_cast f.scale_pos
  have hu : (f.units a : ℚ) < f.units b := by exact_mod_cast f.units_strictMono h
  exact div_lt_div_of_pos_right hu hs

@[simp]
theorem value_zero : f.value 0 = 0 := by
  simp [value, units, f.binade_pos]

theorem value_nonneg (rank : ℕ) : 0 ≤ f.value rank :=
  f.value_zero.symm.trans_le (f.value_strictMono.monotone (Nat.zero_le rank))

theorem value_one : f.value 1 = 1 / f.scale := by
  have h : 1 < f.binade := by cases f <;> decide
  simp [value, units, h]

theorem value_one_le : f.value 1 ≤ 1 := by
  have hscale : (1 : ℚ) ≤ f.scale := by exact_mod_cast f.scale_pos
  rw [value_one]
  exact div_le_one_of_le₀ hscale (by positivity)

/-- A rank whose magnitude is nearest to `x`; of two that are as near, the even one. -/
structure IsNearestRank (x : ℚ) (rank : ℕ) : Prop where
  near : ∀ other, |f.value rank - x| ≤ |f.value other - x|
  even : ∀ other, other ≠ rank → |f.value rank - x| = |f.value other - x| → rank % 2 = 0

variable {f}

theorem IsNearestRank.unique {x : ℚ} {a b : ℕ} (ha : f.IsNearestRank x a)
    (hb : f.IsNearestRank x b) : a = b := by
  by_contra hne
  wlog hlt : a < b generalizing a b
  · exact this hb ha (Ne.symm hne) (by omega)
  have heq := le_antisymm (ha.near b) (hb.near a)
  have heven := ha.even b (Ne.symm hne) heq
  have hodd := hb.even a hne heq.symm
  -- a rank between the two is nearer than both
  have h1 := f.value_strictMono (show a < a + 1 by omega)
  have h2 := f.value_strictMono (show a + 1 < b by omega)
  have hmid := ha.near (a + 1)
  have hmid' := hb.near (a + 1)
  rcases abs_cases (f.value a - x) with h | h <;> rcases abs_cases (f.value b - x) with h' | h' <;>
    rcases abs_cases (f.value (a + 1) - x) with h'' | h'' <;> linarith

/-- Of two ranks around a number each other rank is beyond one. -/
theorem dist_le_of_between {x : ℚ} {low : ℕ} (hlow : f.value low ≤ x)
    (hhigh : x ≤ f.value (low + 1)) (other : ℕ) :
    x - f.value low ≤ |f.value other - x| ∨ f.value (low + 1) - x ≤ |f.value other - x| := by
  rcases Nat.lt_or_ge low other with h | h
  · right
    have hv := f.value_strictMono.monotone (show low + 1 ≤ other from h)
    rw [abs_of_nonneg (by linarith)]
    linarith
  · left
    have hv := f.value_strictMono.monotone h
    rw [abs_of_nonpos (by linarith)]
    linarith

/-- The lower of two ranks around a number is nearest if the number is before their middle, or in it
and the rank even. -/
theorem isNearestRank_low {x : ℚ} {low : ℕ} (hlow : f.value low ≤ x)
    (hhigh : x < f.value (low + 1)) (hmiddle : 2 * x ≤ f.value low + f.value (low + 1))
    (htie : 2 * x = f.value low + f.value (low + 1) → low % 2 = 0) : f.IsNearestRank x low := by
  have hdist : |f.value low - x| = x - f.value low := by
    rw [abs_of_nonpos (by linarith), neg_sub]
  constructor
  · intro other
    rw [hdist]
    rcases dist_le_of_between hlow hhigh.le other with h | h
    · exact h
    · linarith
  · intro other hne heq
    apply htie
    rw [hdist] at heq
    rcases Nat.lt_or_gt_of_ne hne with h | h
    · have hv := f.value_strictMono h
      rw [abs_of_nonpos (by linarith)] at heq
      linarith
    · have hv := f.value_strictMono.monotone (show low + 1 ≤ other from h)
      rw [abs_of_nonneg (by linarith)] at heq
      linarith

theorem isNearestRank_high {x : ℚ} {low : ℕ} (hlow : f.value low ≤ x)
    (hhigh : x < f.value (low + 1)) (hmiddle : f.value low + f.value (low + 1) ≤ 2 * x)
    (htie : f.value low + f.value (low + 1) = 2 * x → (low + 1) % 2 = 0) :
    f.IsNearestRank x (low + 1) := by
  have hdist : |f.value (low + 1) - x| = f.value (low + 1) - x := abs_of_nonneg (by linarith)
  constructor
  · intro other
    rw [hdist]
    rcases dist_le_of_between hlow hhigh.le other with h | h
    · linarith
    · exact h
  · intro other hne heq
    apply htie
    rw [hdist] at heq
    rcases Nat.lt_or_gt_of_ne hne with h | h
    · have hv := f.value_strictMono.monotone (show other ≤ low by omega)
      rw [abs_of_nonpos (by linarith)] at heq
      linarith
    · have hv := f.value_strictMono h
      rw [abs_of_nonneg (by linarith)] at heq
      linarith

theorem IsNearestRank.le_of_value_le {x : ℚ} {rank bound : ℕ} (h : f.IsNearestRank x rank)
    (hx : f.value bound ≤ x) : bound ≤ rank := by
  by_contra hlt
  have hv := f.value_strictMono (Nat.not_le.mp hlt)
  have hnear := h.near bound
  rw [abs_of_nonpos (by linarith), abs_of_nonpos (by linarith)] at hnear
  linarith

theorem IsNearestRank.le_of_le_value {x : ℚ} {rank bound : ℕ} (h : f.IsNearestRank x rank)
    (hx : x ≤ f.value bound) : rank ≤ bound := by
  by_contra hlt
  have hv := f.value_strictMono (Nat.not_le.mp hlt)
  have hnear := h.near bound
  rw [abs_of_nonneg (by linarith), abs_of_nonneg (by linarith)] at hnear
  linarith

/-- What lies between a number and the magnitude nearest to it has the same one nearest. -/
theorem IsNearestRank.of_between {x y : ℚ} {rank : ℕ} (h : f.IsNearestRank x rank)
    (hy : |f.value rank - y| + |y - x| = |f.value rank - x|) : f.IsNearestRank y rank := by
  have htriangle (other : ℕ) : |f.value other - x| ≤ |f.value other - y| + |y - x| :=
    abs_sub_le _ _ _
  constructor
  · intro other
    linarith [h.near other, htriangle other]
  · intro other hne heq
    exact h.even other hne (le_antisymm (h.near other) (by linarith [htriangle other]))

/-- The numbers nearest to one magnitude leave no gaps. -/
theorem IsNearestRank.of_le_of_le {x y z : ℚ} {rank : ℕ} (hx : f.IsNearestRank x rank)
    (hz : f.IsNearestRank z rank) (hxy : x ≤ y) (hyz : y ≤ z) : f.IsNearestRank y rank := by
  rcases le_total y (f.value rank) with hle | hge
  · apply hx.of_between
    rw [abs_of_nonneg (by linarith), abs_of_nonneg (by linarith), abs_of_nonneg (by linarith)]
    ring
  · apply hz.of_between
    rw [abs_of_nonpos (by linarith), abs_of_nonpos (by linarith), abs_of_nonpos (by linarith)]
    ring

variable (f)

theorem isNearestRank_value (rank : ℕ) : f.IsNearestRank (f.value rank) rank := by
  constructor
  · intro other
    rw [sub_self, abs_zero]
    exact abs_nonneg _
  · intro other hne heq
    rw [sub_self, abs_zero] at heq
    exact absurd (f.value_strictMono.injective (sub_eq_zero.mp (abs_eq_zero.mp heq.symm))) hne

variable {f}

/-- Only zero is nearest to zero. -/
theorem IsNearestRank.pos {x : ℚ} {rank : ℕ} (h : f.IsNearestRank x rank) (hx : 0 ≤ x)
    (hrank : rank ≠ 0) : 0 < x := by
  refine lt_of_le_of_ne hx fun hzero => hrank ?_
  have hself := f.isNearestRank_value 0
  rw [value_zero, hzero] at hself
  exact h.unique hself

variable (f)

/-- How many doublings of the spacing leave a whole number within the significand. -/
theorem significand_bounds (whole : ℕ) :
    (whole.log2 - f.fractionBits = 0 ∨ f.binade ≤ whole / 2 ^ (whole.log2 - f.fractionBits)) ∧
      whole / 2 ^ (whole.log2 - f.fractionBits) < 2 * f.binade := by
  have hb : f.binade = 2 ^ f.fractionBits := rfl
  have hhigh := Nat.lt_log2_self (n := whole)
  rw [hb, ← Nat.pow_succ']
  rcases Nat.le_total whole.log2 f.fractionBits with h | h
  · rw [Nat.sub_eq_zero_of_le h]
    refine ⟨Or.inl rfl, ?_⟩
    rw [Nat.pow_zero, Nat.div_one]
    exact Nat.lt_of_lt_of_le hhigh (Nat.pow_le_pow_right (by decide) (by omega))
  · constructor
    · rcases Nat.eq_zero_or_pos whole with hz | hpos
      · left
        simp [hz]
      · right
        rw [Nat.le_div_iff_mul_le (Nat.two_pow_pos _), ← Nat.pow_add, Nat.add_sub_cancel' h]
        exact Nat.log2_self_le (by omega)
    · rw [Nat.div_lt_iff_lt_mul (Nat.two_pow_pos _), ← Nat.pow_add]
      refine Nat.lt_of_lt_of_le hhigh (Nat.pow_le_pow_right (by decide) ?_)
      omega

/-- The magnitudes of a block are whole multiples of one step. -/
theorem value_block (shift : ℕ) {k : ℕ} (hlow : shift = 0 ∨ f.binade ≤ k)
    (hhigh : k ≤ 2 * f.binade) {den : ℕ} (hden : 0 < den) :
    f.value (shift * f.binade + k) = k * ((den * 2 ^ shift : ℕ) / (den * f.scale : ℚ)) := by
  have hs : (f.scale : ℚ) ≠ 0 := by exact_mod_cast f.scale_pos.ne'
  have hd : (den : ℚ) ≠ 0 := by exact_mod_cast hden.ne'
  rw [value, f.units_block shift hlow hhigh]
  push_cast
  field_simp

variable {f}

/-- Rounding to whole steps is rounding to ranks where the ranks are whole steps apart. -/
theorem isNearestRank_roundHalfEven {base num cell : ℕ} {unit : ℚ} (hunit : 0 < unit)
    (hcell : 0 < cell) (hbase : base % 2 = 0)
    (hlow : f.value (base + num / cell) = (num / cell : ℕ) * (cell * unit))
    (hhigh : f.value (base + num / cell + 1) = (num / cell + 1 : ℕ) * (cell * unit)) :
    f.IsNearestRank (num * unit) (base + roundHalfEven num cell) := by
  have hscaled : ∀ {a b : ℕ}, a < b → (a : ℚ) * unit < b * unit := fun h =>
    mul_lt_mul_of_pos_right (by exact_mod_cast h) hunit
  have hsplit : (num : ℚ) = (num / cell : ℕ) * cell + (num % cell : ℕ) := by
    exact_mod_cast (Nat.div_add_mod' num cell).symm
  have hx : (num : ℚ) * unit = f.value (base + num / cell) + (num % cell : ℕ) * unit := by
    rw [hlow, hsplit]
    ring
  have hgap : f.value (base + num / cell + 1) = f.value (base + num / cell) + cell * unit := by
    rw [hlow, hhigh]
    push_cast
    ring
  have hrest : 0 ≤ ((num % cell : ℕ) : ℚ) * unit := by positivity
  have hlt := hscaled (Nat.mod_lt num hcell)
  rw [hx]
  clear hx hsplit hlow hhigh
  rcases roundHalfEven_cases num cell with ⟨h, hr⟩ | ⟨h, hr⟩ | ⟨h, hr⟩ <;> rw [hr]
  · have hmiddle := hscaled h
    push_cast at hmiddle
    apply isNearestRank_low <;> intros <;> linarith
  · have hmiddle := hscaled h
    push_cast at hmiddle
    rw [← Nat.add_assoc]
    apply isNearestRank_high <;> intros <;> linarith
  · have hmiddle : 2 * (((num % cell : ℕ) : ℚ) * unit) = cell * unit := by
      rw [← mul_assoc]
      exact_mod_cast congrArg (fun n : ℕ => (n : ℚ) * unit) h
    rcases Nat.mod_two_eq_zero_or_one (num / cell) with he | ho
    · rw [he, Nat.add_zero]
      apply isNearestRank_low
      · linarith
      · linarith
      · linarith
      · intro _
        omega
    · rw [ho, ← Nat.add_assoc]
      apply isNearestRank_high
      · linarith
      · linarith
      · linarith
      · intro _
        omega

variable (f)

theorem nearestRank_isNearestRank (num : ℕ) {den : ℕ} (hden : 0 < den) :
    f.IsNearestRank ((num : ℚ) / (den * f.scale)) (f.nearestRank num den) := by
  obtain ⟨hlow, hhigh⟩ := f.significand_bounds (num / den)
  unfold nearestRank
  rw [Nat.div_div_eq_div_mul] at hlow hhigh
  generalize (num / den).log2 - f.fractionBits = shift at hlow hhigh ⊢
  have hscale : (0 : ℚ) < f.scale := by exact_mod_cast f.scale_pos
  have hdenQ : (0 : ℚ) < den := by exact_mod_cast hden
  have heven : shift * f.binade % 2 = 0 := by
    rw [Nat.mul_mod, f.binade_even, Nat.mul_zero, Nat.zero_mod]
  rw [← mul_one_div]
  apply isNearestRank_roundHalfEven
  · positivity
  · exact Nat.mul_pos hden (Nat.two_pow_pos shift)
  · exact heven
  · rw [Nat.pow_eq, f.value_block shift hlow hhigh.le hden, mul_one_div]
  · rw [Nat.pow_eq, Nat.add_assoc, f.value_block shift (hlow.imp id Nat.le_succ_of_le) hhigh hden,
      mul_one_div]

theorem fractionBits_le_unitBits : f.fractionBits ≤ f.unitBits := by
  cases f <;> decide

/-- The whole numbers are magnitudes as far as the significand reaches. -/
theorem exists_value_eq {k : ℕ} (hk : k ≤ 2 * f.binade) : ∃ rank, f.value rank = k := by
  rcases Nat.eq_zero_or_pos k with rfl | hpos
  · exact ⟨0, by simp⟩
  · have hbinade : f.binade = 2 ^ f.fractionBits := rfl
    have hbits := f.fractionBits_le_unitBits
    obtain ⟨bit, hbit, hlow, hhigh⟩ :
        ∃ bit ≤ f.fractionBits, 2 ^ bit ≤ k ∧ k ≤ 2 * 2 ^ bit := by
      have hself := Nat.log2_self_le hpos.ne'
      rcases Nat.le_total k.log2 f.fractionBits with h | h
      · exact ⟨k.log2, h, hself, by rw [← Nat.pow_succ']; exact Nat.lt_log2_self.le⟩
      · exact ⟨f.fractionBits, le_refl _, (Nat.pow_le_pow_right (by decide) h).trans hself, hk⟩
    -- the leading bit moves up to the top of the significand
    obtain ⟨up, hup⟩ := Nat.exists_eq_add_of_le hbit
    obtain ⟨shift, hshift⟩ := Nat.exists_eq_add_of_le (show up ≤ f.unitBits by omega)
    rw [hup, Nat.pow_add] at hbinade
    have hlow' : f.binade ≤ k * 2 ^ up := by
      rw [hbinade]
      exact Nat.mul_le_mul_right _ hlow
    have hhigh' : k * 2 ^ up ≤ 2 * f.binade := by
      rw [hbinade, ← Nat.mul_assoc]
      exact Nat.mul_le_mul_right _ hhigh
    refine ⟨shift * f.binade + k * 2 ^ up, ?_⟩
    have hscale : f.scale = 2 ^ up * 2 ^ shift := by
      rw [← Nat.pow_add, ← hshift]
      rfl
    rw [value, f.units_block shift (Or.inr hlow') hhigh', Nat.mul_assoc, ← hscale, Nat.cast_mul,
      mul_div_cancel_right₀ _ (by exact_mod_cast f.scale_pos.ne')]

/-- The first magnitude past the finite ones is a power of two. -/
theorem units_ranks : f.units f.ranks = 2 ^ (f.fractionBits + 2 * f.bias) := by
  have hranks : f.ranks = 2 * f.bias * f.binade + f.binade := by
    rw [ranks, Nat.add_mul, Nat.one_mul]
  have hb := f.binade_pos
  rw [hranks, f.units_block _ (Or.inr (Nat.le_refl _)) (by omega), Nat.pow_add]
  rfl

/-- The first magnitude past the finite ones is below the powers of ten that are given up. -/
theorem value_ranks_le : f.value f.ranks ≤ 10 ^ f.unitBits := by
  have hbits : f.fractionBits + 2 * f.bias ≤ 2 * f.unitBits := by
    cases f <;> decide
  have hscale : f.scale = 2 ^ f.unitBits := rfl
  have hle : f.units f.ranks ≤ 10 ^ f.unitBits * f.scale := by
    rw [f.units_ranks, hscale, ← Nat.mul_pow]
    calc 2 ^ (f.fractionBits + 2 * f.bias) ≤ 2 ^ (2 * f.unitBits) :=
          Nat.pow_le_pow_right (by decide) hbits
      _ = (2 ^ 2) ^ f.unitBits := Nat.pow_mul ..
      _ ≤ (10 * 2) ^ f.unitBits := Nat.pow_le_pow_left (by decide) _
  rw [value, div_le_iff₀ (by exact_mod_cast f.scale_pos)]
  exact_mod_cast hle

/-- Less than half a unit is nearest to zero. -/
theorem isNearestRank_zero {x : ℚ} (hx : 0 ≤ x) (hlt : x < 10 ^ (-f.unitBits - 1 : ℤ)) :
    f.IsNearestRank x 0 := by
  have hpow : (10 : ℚ) ^ (-f.unitBits : ℤ) ≤ 1 / f.scale := by
    rw [zpow_neg, zpow_natCast, ← one_div]
    have hs : (0 : ℚ) < f.scale := by exact_mod_cast f.scale_pos
    apply one_div_le_one_div_of_le hs
    have : f.scale ≤ 10 ^ f.unitBits := Nat.pow_le_pow_left (by decide) _
    exact_mod_cast this
  have hone := f.value_one
  have hpos := ten_zpow_pos (-f.unitBits)
  rw [zpow_sub_one₀ (by norm_num)] at hlt
  apply isNearestRank_low
  · simpa using hx
  · rw [Nat.zero_add, hone]
    linarith
  · rw [Nat.zero_add, hone, value_zero]
    linarith
  · intro _
    rfl

end BinaryFormat

namespace Binary

variable {f : BinaryFormat}

/-- A number with a given sign and the magnitude nearest to `x`, where infinity stands for all
magnitudes past the finite ones. -/
def Rounds (negative : Bool) (x : ℚ) : Binary f → Prop
  | nan _ => False
  | infinite sign => sign = negative ∧ ∃ rank, f.ranks ≤ rank ∧ f.IsNearestRank x rank
  | finite sign rank => sign = negative ∧ f.IsNearestRank x rank

/-- The number nearest to a rational. Zero has no sign. -/
def IsNearest (q : ℚ) (b : Binary f) : Prop :=
  b.Rounds (q < 0) |q|

theorem Rounds.unique {negative : Bool} {x : ℚ} {a b : Binary f} (ha : a.Rounds negative x)
    (hb : b.Rounds negative x) : a = b := by
  cases a with
  | nan => exact ha.elim
  | infinite s =>
    obtain ⟨rfl, rank, hle, hrank⟩ := ha
    cases b with
    | nan => exact hb.elim
    | infinite t => rw [hb.1]
    | finite t r => exact absurd (hrank.unique hb.2) (by have := r.isLt; omega)
  | finite s r =>
    obtain ⟨rfl, hrank⟩ := ha
    cases b with
    | nan => exact hb.elim
    | infinite t =>
      obtain ⟨_, rank, hle, hrank'⟩ := hb
      exact absurd (hrank.unique hrank') (by have := r.isLt; omega)
    | finite t r' => rw [hb.1, Fin.ext (hrank.unique hb.2)]

theorem Rounds.isNegative {negative : Bool} {x : ℚ} {b : Binary f} (h : b.Rounds negative x) :
    b.isNaN = false ∧ b.isNegative = negative := by
  cases b with
  | nan => exact h.elim
  | infinite s => exact ⟨rfl, h.1⟩
  | finite s r => exact ⟨rfl, h.1⟩

/-- What is more than half a unit does not vanish. -/
theorem Rounds.magnitude_pos {negative : Bool} {x : ℚ} {b : Binary f} (h : b.Rounds negative x)
    (hx : f.value 1 < 2 * x) : 0 < b.magnitude := by
  cases b with
  | nan => exact h.elim
  | infinite s => exact f.ranks_pos
  | finite s r =>
    have hunit := f.value_strictMono Nat.one_pos
    rw [f.value_zero] at hunit
    rw [magnitude, Nat.pos_iff_ne_zero]
    intro hzero
    have hnear := h.2.near 1
    rw [hzero, f.value_zero, zero_sub, abs_neg, abs_of_pos (by linarith)] at hnear
    rcases abs_cases (f.value 1 - x) with habs | habs <;> linarith

theorem ofUnits_rounds (negative : Bool) (num : ℕ) {den : ℕ} (hden : 0 < den) :
    (ofUnits negative num den : Binary f).Rounds negative ((num : ℚ) / (den * f.scale)) := by
  have hnear := f.nearestRank_isNearestRank num hden
  unfold ofUnits
  dsimp only
  split
  · exact ⟨rfl, hnear⟩
  · rename_i h
    exact ⟨rfl, _, Nat.not_lt.mp h, hnear⟩

/-- A magnitude is rounded to itself, or to infinity if it is past the last finite one. -/
theorem ofUnits_of_units (negative : Bool) {num den rank : ℕ} (hden : 0 < den)
    (h : num = f.units rank * den) :
    (ofUnits negative num den : Binary f) =
      if hlt : rank < f.ranks then finite negative ⟨rank, hlt⟩ else infinite negative := by
  have hdenQ : (den : ℚ) ≠ 0 := by exact_mod_cast hden.ne'
  have hvalue : (num : ℚ) / (den * f.scale) = f.value rank := by
    rw [h, BinaryFormat.value, Nat.cast_mul, mul_comm (den : ℚ), mul_div_mul_right _ _ hdenQ]
  have hnear := f.nearestRank_isNearestRank num hden
  rw [hvalue] at hnear
  rw [ofUnits, hnear.unique (f.isNearestRank_value rank)]

theorem ofRatio_rounds (negative : Bool) (num : ℕ) {den : ℕ} (hden : 0 < den) :
    (ofRatio negative num den : Binary f).Rounds negative ((num : ℚ) / den) := by
  have hscale : (f.scale : ℚ) ≠ 0 := by exact_mod_cast f.scale_pos.ne'
  have h := ofUnits_rounds (f := f) negative (num * f.scale) hden
  rwa [Nat.cast_mul, mul_div_mul_right _ _ hscale] at h

theorem ofInt_rounds (n : ℤ) : (ofInt n : Binary f).Rounds (n < 0) n.natAbs := by
  have h := ofRatio_rounds (f := f) (decide (n < 0)) n.natAbs Nat.one_pos
  rwa [Nat.cast_one, div_one] at h

theorem ofInt_isNearest (n : ℤ) : (ofInt n : Binary f).IsNearest n := by
  have h := ofInt_rounds (f := f) n
  rw [Nat.cast_natAbs, Int.cast_abs] at h
  simpa only [IsNearest, Int.cast_lt_zero] using h

/-- The shortcuts by the decimal length agree with rounding. -/
theorem ofDecimal_rounds (negative : Bool) (m : Magnitude) :
    (ofDecimal negative m.coefficient m.exponent : Binary f).Rounds negative m.value := by
  have hratio : (ofRatio negative (m.coefficient * 10 ^ m.exponent.toNat)
      (10 ^ (-m.exponent).toNat) : Binary f).Rounds negative m.value := by
    rw [m.value_ratio]
    exact ofRatio_rounds negative _ (Nat.pow_pos (by decide))
  unfold ofDecimal
  dsimp only
  split
  · rename_i h
    refine ⟨rfl, BinaryFormat.isNearestRank_zero f m.value_nonneg ?_⟩
    rcases h with hz | hreach
    · rw [Magnitude.value_eq_zero_iff.mpr hz]
      exact ten_zpow_pos _
    · exact lt_of_lt_of_le m.value_lt (zpow_le_zpow_right₀ (by norm_num) (by omega))
  · rename_i h
    split
    · rename_i hreach
      push Not at h
      have hle : f.value f.ranks ≤ m.value := by
        calc f.value f.ranks ≤ 10 ^ f.unitBits := f.value_ranks_le
          _ = 10 ^ (f.unitBits : ℤ) := (zpow_natCast _ _).symm
          _ ≤ 10 ^ (decimalLength m.coefficient + m.exponent - 1 : ℤ) :=
            zpow_le_zpow_right₀ (by norm_num) (by omega)
          _ ≤ m.value := Magnitude.le_value h.1
      have hden : 0 < 10 ^ (-m.exponent).toNat := Nat.pow_pos (by decide)
      have hnear := f.nearestRank_isNearestRank
        (m.coefficient * 10 ^ m.exponent.toNat * f.scale) hden
      have hscale : (f.scale : ℚ) ≠ 0 := by exact_mod_cast f.scale_pos.ne'
      rw [Nat.cast_mul _ f.scale, mul_div_mul_right _ _ hscale, ← m.value_ratio] at hnear
      exact ⟨rfl, _, hnear.le_of_value_le hle, hnear⟩
    · exact hratio

end Binary

namespace Exact

variable {f : BinaryFormat}

theorem toBinary_isNearest (x : Exact) : (x.toBinary : Binary f).IsNearest x.value := by
  have hsign : x.isNegative = decide (x.value < 0) := by
    rw [Bool.eq_iff_iff, isNegative_iff, decide_eq_true_iff]
  unfold Binary.IsNearest
  rw [← hsign, ← value_magnitude]
  exact Binary.ofDecimal_rounds x.isNegative x.magnitude

end Exact

end Reckoner
