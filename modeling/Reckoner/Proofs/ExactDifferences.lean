import Reckoner.Binary.Arithmetic
import Reckoner.Proofs.WholeOrder

namespace Reckoner

namespace BinaryFormat

/-- Whether so many units are a magnitude, if need be past the last finite one. -/
def IsMagnitude (f : BinaryFormat) (n : ℕ) : Prop :=
  ∃ rank, f.units rank = n

variable {f : BinaryFormat}

@[simp]
theorem units_zero : f.units 0 = 0 := by
  simp [units, f.binade_pos]

theorem rank_ne_zero {rank : ℕ} (h : 0 < f.units rank) : rank ≠ 0 := by
  intro hzero
  rw [hzero, units_zero] at h
  exact Nat.lt_irrefl 0 h

/-- The magnitudes of a block are whole multiples of its step. -/
theorem exists_step (f : BinaryFormat) (shift : ℕ) :
    ∃ step : ℚ, 0 < step ∧ ∀ k : ℕ, (shift = 0 ∨ f.binade ≤ k) → k ≤ 2 * f.binade →
      f.value (shift * f.binade + k) = k * step := by
  have hscale : (0 : ℚ) < f.scale := by exact_mod_cast f.scale_pos
  refine ⟨2 ^ shift / f.scale, by positivity, fun k hlow hhigh => ?_⟩
  rw [value, f.units_block shift hlow hhigh, Nat.cast_mul, mul_div_assoc, Nat.cast_pow,
    Nat.cast_ofNat]

/-- A significand may be followed by any zeros. The induction moves a short one up to the top of the
binade. -/
theorem isMagnitude_mul_pow (shift : ℕ) {k : ℕ} (hk : k ≤ 2 * f.binade) :
    f.IsMagnitude (k * 2 ^ shift) := by
  induction shift generalizing k with
  | zero => exact ⟨0 * f.binade + k, f.units_block 0 (Or.inl rfl) hk⟩
  | succ shift ih =>
    rcases Nat.lt_or_ge k f.binade with hlt | hge
    · have hdouble := ih (show 2 * k ≤ 2 * f.binade by omega)
      rwa [Nat.mul_comm 2 k, Nat.mul_assoc, ← Nat.pow_succ'] at hdouble
    · exact ⟨_, f.units_block (shift + 1) (Or.inr hge) hk⟩

/-- From the start of a block on all magnitudes are whole multiples of its step. -/
theorem pow_dvd_units {shift k other : ℕ} (hlow : shift = 0 ∨ f.binade ≤ k)
    (hle : shift * f.binade + k ≤ other) : 2 ^ shift ∣ f.units other := by
  obtain ⟨shift', k', rfl, hlow', hhigh'⟩ := f.exists_block other
  rw [f.units_block shift' hlow' (by omega)]
  refine Dvd.dvd.mul_left (Nat.pow_dvd_pow 2 ?_) k'
  rcases hlow with rfl | hk
  · exact Nat.zero_le shift'
  · by_contra hlt
    have hblocks : (shift' + 1) * f.binade ≤ shift * f.binade :=
      Nat.mul_le_mul_right _ (by omega)
    rw [Nat.add_mul, Nat.one_mul] at hblocks
    omega

/-- What is not above two magnitudes and has their common divisors is a magnitude: it is a whole
multiple of the step at the smaller one. -/
theorem isMagnitude_of_dvd {a b n : ℕ} (ha : f.IsMagnitude a) (hb : f.IsMagnitude b) (hna : n ≤ a)
    (hnb : n ≤ b) (hdvd : ∀ c, c ∣ a → c ∣ b → c ∣ n) : f.IsMagnitude n := by
  obtain ⟨low, rfl⟩ := ha
  obtain ⟨high, rfl⟩ := hb
  wlog hle : low ≤ high generalizing low high
  · exact this high hnb low hna (fun c hc hc' => hdvd c hc' hc) (Nat.le_of_not_le hle)
  obtain ⟨shift, k, rfl, hlow, hhigh⟩ := f.exists_block low
  obtain ⟨j, rfl⟩ := hdvd _ (pow_dvd_units hlow (Nat.le_refl _)) (pow_dvd_units hlow hle)
  rw [f.units_block shift hlow (by omega), Nat.mul_comm k] at hna
  have hj : j ≤ k := Nat.le_of_mul_le_mul_left hna (Nat.two_pow_pos shift)
  rw [Nat.mul_comm]
  exact isMagnitude_mul_pow shift (by omega)

theorem isMagnitude_mod {a b : ℕ} (ha : f.IsMagnitude a) (hb : f.IsMagnitude b) (hpos : 0 < b) :
    f.IsMagnitude (a % b) :=
  isMagnitude_of_dvd ha hb (Nat.mod_le a b) (Nat.mod_lt a hpos).le fun _ hca hcb =>
    (Nat.dvd_mod_iff hcb).mpr hca

/-- The difference of two magnitudes at most twice apart is a magnitude. -/
theorem isMagnitude_sub {a b : ℕ} (ha : f.IsMagnitude a) (hb : f.IsMagnitude b) (h : a ≤ 2 * b) :
    f.IsMagnitude (a - b) :=
  isMagnitude_of_dvd ha hb (Nat.sub_le a b) (by omega) fun _ => Nat.dvd_sub

theorem isMagnitude_two_mul {n : ℕ} (h : f.IsMagnitude n) : f.IsMagnitude (2 * n) := by
  obtain ⟨rank, rfl⟩ := h
  obtain ⟨shift, k, rfl, hlow, hhigh⟩ := f.exists_block rank
  rw [f.units_block shift hlow (by omega), Nat.mul_left_comm, ← Nat.pow_succ']
  exact isMagnitude_mul_pow (shift + 1) (by omega)

/-- What a magnitude lacks of one above its double is not below the next magnitude. -/
theorem units_succ_le_sub {low high : ℕ} (h : 2 * f.units low < f.units high) :
    f.units (low + 1) ≤ f.units high - f.units low := by
  have hle : low ≤ high := f.units_strictMono.le_iff_le.mp (by omega)
  obtain ⟨shift, k, rfl, hlow, hhigh⟩ := f.exists_block low
  obtain ⟨m, hm⟩ := pow_dvd_units hlow hle
  rw [Nat.add_assoc, f.units_block shift (hlow.imp id Nat.le_succ_of_le) hhigh]
  rw [f.units_block shift hlow (by omega), hm, Nat.mul_comm k, Nat.mul_left_comm] at h
  have hmk : 2 * k < m := Nat.lt_of_mul_lt_mul_left h
  rw [f.units_block shift hlow (by omega), hm, Nat.mul_comm _ m, ← Nat.sub_mul]
  exact Nat.mul_le_mul_right _ (by omega)

end BinaryFormat

namespace Binary

variable {f : BinaryFormat} {x y : Binary f} {negative s t : Bool} {a b n : ℕ}

/-- A number of a sign and so many units. -/
def HasUnits (negative : Bool) (n : ℕ) (x : Binary f) : Prop :=
  ∃ rank, x = finite negative rank ∧ f.units rank = n

theorem hasUnits_finite (negative : Bool) (rank : Fin f.ranks) :
    (finite negative rank).HasUnits negative (f.units rank) :=
  ⟨rank, rfl, rfl⟩

theorem exists_hasUnits (h : x.isFinite) : ∃ negative n, x.HasUnits negative n := by
  cases x with
  | nan => cases h
  | infinite => cases h
  | finite negative rank => exact ⟨negative, _, hasUnits_finite negative rank⟩

theorem hasUnits_zero (negative : Bool) : (zero negative : Binary f).HasUnits negative 0 :=
  ⟨_, rfl, BinaryFormat.units_zero⟩

theorem HasUnits.isFinite (h : x.HasUnits negative n) : x.isFinite = true := by
  obtain ⟨rank, rfl, -⟩ := h
  rfl

theorem HasUnits.isNegative (h : x.HasUnits negative n) : x.isNegative = negative := by
  obtain ⟨rank, rfl, -⟩ := h
  rfl

theorem HasUnits.isMagnitude (h : x.HasUnits negative n) : f.IsMagnitude n := by
  obtain ⟨rank, -, hrank⟩ := h
  exact ⟨rank, hrank⟩

theorem HasUnits.abs (h : x.HasUnits negative n) : x.abs.HasUnits false n := by
  obtain ⟨rank, rfl, hrank⟩ := h
  exact ⟨rank, rfl, hrank⟩

theorem HasUnits.neg (h : x.HasUnits negative n) : x.neg.HasUnits (!negative) n := by
  obtain ⟨rank, rfl, hrank⟩ := h
  exact ⟨rank, rfl, hrank⟩

theorem HasUnits.stored (h : x.HasUnits negative n) :
    x.stored = (if negative then -n else n : ℤ) / f.scale := by
  obtain ⟨rank, rfl, rfl⟩ := h
  cases negative
  · simp [Binary.stored, BinaryFormat.value]
  · simp [Binary.stored, BinaryFormat.value, neg_div]

theorem HasUnits.stored_eq_zero_iff (h : x.HasUnits negative n) : x.stored = 0 ↔ n = 0 := by
  have hscale : (f.scale : ℚ) ≠ 0 := by exact_mod_cast f.scale_pos.ne'
  rw [h.stored, div_eq_zero_iff, or_iff_left hscale, Int.cast_eq_zero]
  split <;> omega

theorem HasUnits.compare? (hx : x.HasUnits false a) (hy : y.HasUnits false b) :
    x.compare? y = some (compare a b) := by
  obtain ⟨left, rfl, rfl⟩ := hx
  obtain ⟨right, rfl, rfl⟩ := hy
  have hunits := f.units_strictMono.cmp_map_eq left.val right.val
  have hranks := (Nat.strictMono_cast (α := ℤ)).cmp_map_eq left.val right.val
  rw [cmp_eq_compare, cmp_eq_compare] at hunits hranks
  rw [hunits, ← hranks]
  rfl

theorem hasUnits_ofUnits (h : f.IsMagnitude n) (hlt : n < f.units f.ranks) :
    (ofUnits negative n 1 : Binary f).HasUnits negative n := by
  obtain ⟨rank, rfl⟩ := h
  have hrank : rank < f.ranks := f.units_strictMono.lt_iff_lt.mp hlt
  rw [ofUnits_of_units negative Nat.one_pos (Nat.mul_one _).symm, dif_pos hrank]
  exact hasUnits_finite negative ⟨rank, hrank⟩

theorem HasUnits.lt_units_ranks (h : x.HasUnits negative n) : n < f.units f.ranks := by
  obtain ⟨rank, -, rfl⟩ := h
  exact f.units_strictMono rank.isLt

/-- What a quotient cut toward zero leaves is a magnitude, so that it is not rounded. -/
theorem HasUnits.rem (hx : x.HasUnits s a) (hy : y.HasUnits t b) (hb : 0 < b) :
    (x.rem y).HasUnits s (a % b) := by
  have hlt : a % b < f.units f.ranks := (Nat.mod_le a b).trans_lt hx.lt_units_ranks
  have hmod := BinaryFormat.isMagnitude_mod hx.isMagnitude hy.isMagnitude hb
  obtain ⟨left, rfl, rfl⟩ := hx
  obtain ⟨right, rfl, rfl⟩ := hy
  rw [Binary.rem, if_neg (BinaryFormat.rank_ne_zero hb)]
  exact hasUnits_ofUnits hmod hlt

/-- The difference of positive numbers before it is rounded. -/
theorem HasUnits.sub_eq (hx : x.HasUnits false a) (hy : y.HasUnits false b) :
    x.sub y = if (a : ℤ) - b = 0 then zero false
      else ofUnits (decide ((a : ℤ) - b < 0)) ((a : ℤ) - b).natAbs 1 := by
  obtain ⟨left, rfl, rfl⟩ := hx
  obtain ⟨right, rfl, rfl⟩ := hy
  rfl

theorem HasUnits.sub (hx : x.HasUnits false a) (hy : y.HasUnits false b)
    (h : f.IsMagnitude ((a : ℤ) - b).natAbs) :
    (x.sub y).HasUnits (decide (a < b)) ((a : ℤ) - b).natAbs := by
  have ha := hx.lt_units_ranks
  have hb := hy.lt_units_ranks
  rw [hx.sub_eq hy]
  split
  · rename_i heq
    rw [heq, decide_eq_false (by omega)]
    exact hasUnits_zero false
  · rw [decide_eq_decide.mpr (show (a : ℤ) - b < 0 ↔ a < b by omega)]
    exact hasUnits_ofUnits h (by omega)

/-- A difference may be rounded where it is above what is taken off, and stays above it. -/
theorem HasUnits.compare?_sub_of_lt (hx : x.HasUnits false a) (hy : y.HasUnits false b)
    (h : 2 * b < a) : y.compare? (x.sub y) = some .lt := by
  have hsub : x.sub y = ofUnits false (a - b) 1 := by
    rw [hx.sub_eq hy, if_neg (by omega), decide_eq_false (by omega)]
    congr 1
    omega
  obtain ⟨left, rfl, rfl⟩ := hx
  obtain ⟨right, rfl, rfl⟩ := hy
  have hscale : (0 : ℚ) < f.scale := by exact_mod_cast f.scale_pos
  have hnear := f.nearestRank_isNearestRank (f.units left - f.units right) Nat.one_pos
  have habove : f.value (right + 1) ≤
      ((f.units left - f.units right : ℕ) : ℚ) / ((1 : ℕ) * f.scale) := by
    rw [Nat.cast_one, one_mul]
    exact div_le_div_of_nonneg_right (by exact_mod_cast BinaryFormat.units_succ_le_sub h) hscale.le
  have hrank := hnear.le_of_value_le habove
  rw [hsub, ofUnits]
  split
  · have hless : (right : ℤ) < (f.nearestRank (f.units left - f.units right) 1 : ℕ) := by omega
    exact congrArg some (compare_lt_iff_lt.mpr hless)
  · have hless : (right : ℤ) < f.ranks := by exact_mod_cast right.isLt
    exact congrArg some (compare_lt_iff_lt.mpr hless)

/-- A number compares with what it lacks of another one as its double with that one, although the
difference may be rounded. -/
theorem HasUnits.compare?_sub (hx : x.HasUnits false a) (hy : y.HasUnits false b) (hle : b ≤ a) :
    y.compare? (x.sub y) = some (compare (2 * b) a) := by
  rcases Nat.lt_or_ge (2 * b) a with hlt | hge
  · rw [hx.compare?_sub_of_lt hy hlt, compare_lt_iff_lt.mpr hlt]
  · have hrest : ((a : ℤ) - b).natAbs = a - b := by omega
    have hsub : (x.sub y).HasUnits false (a - b) := by
      have h := hx.sub hy (hrest ▸ BinaryFormat.isMagnitude_sub hx.isMagnitude hy.isMagnitude hge)
      rwa [hrest, decide_eq_false (by omega)] at h
    rw [hy.compare? hsub]
    rcases hge.lt_or_eq with hgt | heq
    · rw [compare_gt_iff_gt.mpr hgt, compare_gt_iff_gt.mpr (by omega)]
    · rw [compare_eq_iff_eq.mpr heq.symm, compare_eq_iff_eq.mpr (by omega)]

end Binary

end Reckoner
