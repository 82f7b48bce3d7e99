import Reckoner.Evaluation.Operation
import Reckoner.Proofs.NearestWhole

namespace Reckoner

/-- A power of two as a ratio of whole ones. -/
theorem two_zpow_ratio (n : ℤ) :
    (2 : ℚ) ^ n = ((2 ^ n.toNat : ℕ) : ℚ) / ((2 ^ (-n).toNat : ℕ) : ℚ) := by
  push_cast
  rw [← zpow_natCast, ← zpow_natCast, ← zpow_sub₀ (by norm_num)]
  congr 1
  omega

/-- The remainder of a division cut toward zero takes the sign of what is divided. -/
theorem tmod_cases (n d : ℤ) :
    0 ≤ n ∧ n.tmod d = n % d ∨ n < 0 ∧ n.tmod d = -(-n % d) := by
  rcases lt_or_ge n 0 with hneg | hnonneg
  · right
    rw [← Int.tmod_eq_emod_of_nonneg (by omega), Int.neg_tmod, neg_neg]
    exact ⟨hneg, rfl⟩
  · exact .inl ⟨hnonneg, Int.tmod_eq_emod_of_nonneg hnonneg⟩

namespace BinaryFormat

variable {f : BinaryFormat} {a num den : ℕ}

theorem isMagnitude_mul_two_pow (h : f.IsMagnitude a) (count : ℕ) :
    f.IsMagnitude (a * 2 ^ count) := by
  induction count with
  | zero => simpa using h
  | succ count ih =>
    rw [Nat.pow_succ', Nat.mul_left_comm]
    exact isMagnitude_two_mul ih

/-- Halvings are exact, or lead below the first number with a full significand. -/
theorem exact_or_small (h : f.IsMagnitude a) (halvings : ℕ) :
    (∃ n, f.IsMagnitude n ∧ a = n * 2 ^ halvings) ∨ a < f.binade * 2 ^ halvings := by
  obtain ⟨rank, rfl⟩ := h
  obtain ⟨shift, k, rfl, hlow, hhigh⟩ := f.exists_block rank
  rw [f.units_block shift hlow (by omega)]
  rcases Nat.lt_or_ge shift halvings with hlt | hge
  · right
    calc k * 2 ^ shift < 2 * f.binade * 2 ^ shift :=
          Nat.mul_lt_mul_of_pos_right hhigh (Nat.two_pow_pos shift)
      _ = f.binade * 2 ^ (shift + 1) := by rw [Nat.pow_succ']; ring
      _ ≤ f.binade * 2 ^ halvings := Nat.mul_le_mul_left _ (Nat.pow_le_pow_right two_pos hlt)
  · left
    obtain ⟨rest, rfl⟩ := Nat.exists_eq_add_of_le hge
    refine ⟨k * 2 ^ rest, isMagnitude_mul_pow rest (by omega), ?_⟩
    rw [Nat.pow_add]
    ring

theorem nearestRank_of_small (h : 2 * num < den) : f.nearestRank num den = 0 := by
  have hzero : num / den = 0 := Nat.div_eq_of_lt (by omega)
  have hrest : num % den = num := Nat.mod_eq_of_lt (by omega)
  simp [nearestRank, roundHalfEven, hzero, hrest, Nat.compare_eq_lt.mpr h]

theorem le_nearestRank {rank : ℕ} (hden : 0 < den) (h : f.units rank * den ≤ num) :
    rank ≤ f.nearestRank num den := by
  have hscale : (0 : ℚ) < f.scale := by exact_mod_cast f.scale_pos
  have hdenQ : (0 : ℚ) < den := by exact_mod_cast hden
  apply (f.nearestRank_isNearestRank num hden).le_of_value_le
  rw [value, div_le_div_iff₀ hscale (mul_pos hdenQ hscale), ← mul_assoc]
  exact mul_le_mul_of_nonneg_right (by exact_mod_cast h) hscale.le

theorem nearestRank_le {rank : ℕ} (hden : 0 < den) (h : num ≤ f.units rank * den) :
    f.nearestRank num den ≤ rank := by
  have hscale : (0 : ℚ) < f.scale := by exact_mod_cast f.scale_pos
  have hdenQ : (0 : ℚ) < den := by exact_mod_cast hden
  apply (f.nearestRank_isNearestRank num hden).le_of_le_value
  rw [value, div_le_div_iff₀ (mul_pos hdenQ hscale) hscale, ← mul_assoc]
  exact mul_le_mul_of_nonneg_right (by exact_mod_cast h) hscale.le

end BinaryFormat

namespace Binary

variable {f : BinaryFormat} {x : Binary f} {s : Bool} {a num den num' den' : ℕ} {k m step : ℤ}

/-- Equal ratios are rounded alike. -/
theorem ofUnits_congr (s : Bool) (hden : 0 < den) (hden' : 0 < den')
    (h : num * den' = num' * den) :
    (ofUnits s num den : Binary f) = ofUnits s num' den' := by
  have hscale : (0 : ℚ) < f.scale := by exact_mod_cast f.scale_pos
  have hdenQ : (0 : ℚ) < den := by exact_mod_cast hden
  have hdenQ' : (0 : ℚ) < den' := by exact_mod_cast hden'
  have hratio : (num : ℚ) / (den * f.scale) = num' / (den' * f.scale) := by
    rw [div_eq_div_iff (by positivity) (by positivity), ← mul_assoc, ← mul_assoc]
    congr 1
    exact_mod_cast h
  apply (ofUnits_rounds s num hden).unique
  rw [hratio]
  exact ofUnits_rounds s num' hden'

theorem ofUnits_of_small (s : Bool) (h : 2 * num < den) :
    (ofUnits s num den : Binary f) = zero s := by
  simp only [ofUnits, BinaryFormat.nearestRank_of_small h, f.ranks_pos, dite_true]
  rfl

theorem ofUnits_of_large (s : Bool) (hden : 0 < den) (h : f.units f.ranks * den ≤ num) :
    (ofUnits s num den : Binary f) = infinite s :=
  dif_neg (not_lt.mpr (BinaryFormat.le_nearestRank hden h))

/-- So many units times a power of two, rounded once. -/
def scaled (s : Bool) (a : ℕ) (k : ℤ) : Binary f :=
  ofUnits s (a * 2 ^ k.toNat) (2 ^ (-k).toNat)

theorem scaled_rounds (s : Bool) (a : ℕ) (k : ℤ) :
    (scaled s a k : Binary f).Rounds s (a / f.scale * 2 ^ k) := by
  have hrounds := ofUnits_rounds (f := f) s (a * 2 ^ k.toNat) (Nat.two_pow_pos (-k).toNat)
  rwa [Nat.cast_mul, mul_comm ((2 ^ (-k).toNat : ℕ) : ℚ), mul_div_mul_comm, ← two_zpow_ratio]
    at hrounds

/-- The powers of two that the format holds are exact. -/
theorem hasUnits_twoPower (hlow : -(f.unitBits : ℤ) ≤ k)
    (hhigh : k + f.unitBits < f.fractionBits + 2 * f.bias) :
    (twoPower k : Binary f).HasUnits false (2 ^ (k + f.unitBits).toNat) := by
  have hmagnitude : f.IsMagnitude (2 ^ (k + f.unitBits).toNat) := by
    have hbinade := f.binade_pos
    have hpower := BinaryFormat.isMagnitude_mul_pow (f := f) (k + f.unitBits).toNat
      (show 1 ≤ 2 * f.binade by omega)
    rwa [Nat.one_mul] at hpower
  have hlt : 2 ^ (k + f.unitBits).toNat < f.units f.ranks := by
    rw [f.units_ranks]
    exact Nat.pow_lt_pow_right (by decide) (by omega)
  have hratio : Nat.pow 2 k.toNat * f.scale =
      2 ^ (k + f.unitBits).toNat * Nat.pow 2 (-k).toNat := by
    rw [BinaryFormat.scale, Nat.pow_eq, Nat.pow_eq, Nat.pow_eq, ← Nat.pow_add, ← Nat.pow_add]
    congr 1
    omega
  rw [twoPower, ofRatio, hratio]
  exact hasUnits_ofUnits_mul hmagnitude hlt (Nat.two_pow_pos _)

/-- One multiplication rounds once. -/
theorem HasUnits.mul_twoPower (hx : x.HasUnits s a) (hlow : -(f.unitBits : ℤ) ≤ k)
    (hhigh : k + f.unitBits < f.fractionBits + 2 * f.bias) :
    x.mul (twoPower k) = scaled s a k := by
  obtain ⟨power, hpower, hunits⟩ := hasUnits_twoPower hlow hhigh
  obtain ⟨rank, rfl, rfl⟩ := hx
  have hratio : f.units rank * 2 ^ (k + f.unitBits).toNat * 2 ^ (-k).toNat =
      f.units rank * 2 ^ k.toNat * f.scale := by
    rw [BinaryFormat.scale, Nat.pow_eq, mul_assoc, mul_assoc, ← Nat.pow_add, ← Nat.pow_add]
    congr 2
    omega
  rw [hpower, Binary.mul, Binary.isNegative, Binary.isNegative, Bool.bne_false, hunits]
  exact ofUnits_congr s f.scale_pos (Nat.two_pow_pos _) hratio

theorem scaled_add (s : Bool) (a : ℕ) (hm : 0 ≤ m) (hk : 0 ≤ k) :
    (scaled s (a * 2 ^ m.toNat) k : Binary f) = scaled s a (m + k) := by
  apply ofUnits_congr s (Nat.two_pow_pos _) (Nat.two_pow_pos _)
  rw [mul_assoc, mul_assoc, mul_assoc, ← Nat.pow_add, ← Nat.pow_add, ← Nat.pow_add]
  congr 2
  omega

/-- Doublings are exact up to the last finite number, and past it the number stays infinite. -/
theorem scaled_mul_up (ha : f.IsMagnitude a) (hm : 0 ≤ m) (hk : 0 ≤ k)
    (hhigh : k + f.unitBits < f.fractionBits + 2 * f.bias) :
    (scaled s a m : Binary f).mul (twoPower k) = scaled s a (m + k) := by
  obtain ⟨rank, hrank⟩ := BinaryFormat.isMagnitude_mul_two_pow ha m.toNat
  have hone : (-m).toNat = 0 := by omega
  have hfirst : (scaled s a m : Binary f) =
      if hlt : rank < f.ranks then finite s ⟨rank, hlt⟩ else infinite s := by
    apply ofUnits_of_units s (Nat.two_pow_pos _)
    rw [hrank, hone, Nat.pow_zero, Nat.mul_one]
  rw [hfirst]
  split
  · rename_i hlt
    have hunits : (finite s ⟨rank, hlt⟩ : Binary f).HasUnits s (a * 2 ^ m.toNat) := ⟨_, rfl, hrank⟩
    rw [hunits.mul_twoPower (by omega) hhigh, scaled_add s a hm hk]
  · rename_i hge
    obtain ⟨power, hpower, hunits⟩ := hasUnits_twoPower (f := f) (by omega) hhigh
    have hne : power.val ≠ 0 := BinaryFormat.rank_ne_zero (hunits ▸ Nat.two_pow_pos _)
    have hlarge : f.units f.ranks ≤ a * 2 ^ m.toNat :=
      hrank ▸ f.units_strictMono.monotone (not_lt.mp hge)
    have hnone : (-(m + k)).toNat = 0 := by omega
    have hinfinite : (scaled s a (m + k) : Binary f) = infinite s := by
      apply ofUnits_of_large s (Nat.two_pow_pos _)
      rw [hnone, Nat.pow_zero, Nat.mul_one]
      refine hlarge.trans (Nat.mul_le_mul_left a (Nat.pow_le_pow_right two_pos ?_))
      omega
    rw [hpower, hinfinite, mul, isNegative, isNegative, Bool.bne_false]
    simp [hne]

/-- What is below the first number with a full significand is not rounded past it. -/
theorem exists_scaled_le_binade (s : Bool) (hsmall : a < f.binade * 2 ^ (-m).toNat) (hm : m ≤ 0) :
    ∃ n, n ≤ f.binade ∧ (scaled s a m : Binary f).HasUnits s n := by
  have hbinade : f.units f.binade = f.binade := f.units_of_le (by omega)
  have hrank : f.nearestRank (a * 2 ^ m.toNat) (2 ^ (-m).toNat) ≤ f.binade := by
    apply BinaryFormat.nearestRank_le (Nat.two_pow_pos _)
    rw [show m.toNat = 0 by omega, Nat.pow_zero, Nat.mul_one, hbinade]
    exact hsmall.le
  have hfinite : f.nearestRank (a * 2 ^ m.toNat) (2 ^ (-m).toNat) < f.ranks := by
    have hranks : f.binade < f.ranks := by cases f <;> decide
    omega
  exact ⟨_, (f.units_strictMono.monotone hrank).trans_eq hbinade, ⟨_, dif_pos hfinite, rfl⟩⟩

/-- A number that halvings have rounded is so small that many more halvings leave nothing of it, nor
of the number before it was rounded. -/
theorem scaled_mul_down_of_small (hsmall : a < f.binade * 2 ^ (-m).toNat) (hm : m ≤ 0)
    (hlow : -(f.unitBits : ℤ) ≤ k) (hhigh : k + f.unitBits < f.fractionBits + 2 * f.bias)
    (hmany : f.fractionBits + 1 < -k) :
    (scaled s a m : Binary f).mul (twoPower k) = scaled s a (m + k) := by
  have hmanyPow : 2 * f.binade < 2 ^ (-k).toNat := by
    have hbinade : f.binade = 2 ^ f.fractionBits := rfl
    rw [hbinade, ← Nat.pow_succ']
    exact Nat.pow_lt_pow_right (by decide) (by omega)
  have hvanished : 2 * a < 2 ^ (-(m + k)).toNat := by
    have hsplit : (-(m + k)).toNat = (-m).toNat + (-k).toNat := by omega
    calc 2 * a < 2 * (f.binade * 2 ^ (-m).toNat) := by omega
      _ = 2 * f.binade * 2 ^ (-m).toNat := by ring
      _ ≤ 2 ^ (-k).toNat * 2 ^ (-m).toNat := Nat.mul_le_mul_right _ hmanyPow.le
      _ = 2 ^ (-(m + k)).toNat := by rw [hsplit, Nat.pow_add, Nat.mul_comm]
  obtain ⟨n, hn, hunits⟩ := exists_scaled_le_binade s hsmall hm
  rw [hunits.mul_twoPower hlow hhigh, scaled, scaled, show (m + k).toNat = 0 by omega,
    show k.toNat = 0 by omega, Nat.pow_zero, Nat.mul_one, Nat.mul_one,
    ofUnits_of_small s (by omega), ofUnits_of_small s hvanished]

/-- Halvings that were exact so far and many more that round at most once come to one scaling. -/
theorem scaled_mul_down (ha : f.IsMagnitude a) (hlt : a < f.units f.ranks) (hm : m ≤ 0)
    (hlow : -(f.unitBits : ℤ) ≤ k) (hmany : f.fractionBits + 1 < -k) :
    (scaled s a m : Binary f).mul (twoPower k) = scaled s a (m + k) := by
  have hhigh : k + f.unitBits < f.fractionBits + 2 * f.bias := by
    have hbits : f.unitBits ≤ 2 * f.bias := by cases f <;> decide
    omega
  rcases BinaryFormat.exact_or_small ha (-m).toNat with ⟨n, hn, rfl⟩ | hsmall
  · have hexact : (scaled s (n * 2 ^ (-m).toNat) m : Binary f).HasUnits s n := by
      rw [scaled, show m.toNat = 0 by omega, Nat.pow_zero, Nat.mul_one]
      refine hasUnits_ofUnits_mul hn (lt_of_le_of_lt ?_ hlt) (Nat.two_pow_pos _)
      exact Nat.le_mul_of_pos_right n (Nat.two_pow_pos _)
    have hsplit : (-(m + k)).toNat = (-m).toNat + (-k).toNat := by omega
    rw [hexact.mul_twoPower hlow hhigh]
    apply ofUnits_congr s (Nat.two_pow_pos _) (Nat.two_pow_pos _)
    rw [hsplit, show (m + k).toNat = 0 by omega, show k.toNat = 0 by omega, Nat.pow_add]
    ring
  · exact scaled_mul_down_of_small hsmall hm hlow hhigh hmany

/-- Steps in one direction from a number that was scaled in that direction before come to one
scaling. -/
theorem mulTimes_scaled
    (hstep : ∀ m : ℤ, 0 ≤ m * step →
      (scaled s a m : Binary f).mul (twoPower step) = scaled s a (m + step))
    (count : ℕ) (hm : 0 ≤ m * step) :
    mulTimes (twoPower step) count (scaled s a m : Binary f) = scaled s a (m + count * step) := by
  induction count generalizing m with
  | zero => simp [mulTimes]
  | succ count ih =>
    have hnext : 0 ≤ (m + step) * step := by
      rw [add_mul]
      exact add_nonneg hm (mul_self_nonneg step)
    rw [mulTimes, hstep m hm, ih hnext]
    congr 1
    push_cast
    ring

/-- A power past the range of the format takes every number but zero out of it. -/
theorem scaled_of_large (ha : 0 < a) (hk : (f.fractionBits + 2 * f.bias : ℤ) ≤ k) :
    (scaled s a k : Binary f) = infinite s := by
  apply ofUnits_of_large s (Nat.two_pow_pos _)
  have hnone : (-k).toNat = 0 := by omega
  rw [f.units_ranks, hnone, Nat.pow_zero, Nat.mul_one]
  calc 2 ^ (f.fractionBits + 2 * f.bias) ≤ 2 ^ k.toNat :=
        Nat.pow_le_pow_right two_pos (by omega)
    _ ≤ a * 2 ^ k.toNat := Nat.le_mul_of_pos_left _ ha

theorem scaled_of_small (ha : a < f.units f.ranks) (hk : k < -(f.fractionBits + 2 * f.bias : ℤ)) :
    (scaled s a k : Binary f) = zero s := by
  apply ofUnits_of_small
  have hnone : k.toNat = 0 := by omega
  rw [f.units_ranks] at ha
  rw [hnone, Nat.pow_zero, Nat.mul_one]
  calc 2 * a < 2 * 2 ^ (f.fractionBits + 2 * f.bias) := by omega
    _ = 2 ^ (f.fractionBits + 2 * f.bias + 1) := (Nat.pow_succ' ..).symm
    _ ≤ 2 ^ (-k).toNat := Nat.pow_le_pow_right two_pos (by omega)

/-- Past 2200 doublings or halvings there is nothing left to change. -/
theorem scaled_clamp (ha : a < BinaryFormat.double.units BinaryFormat.double.ranks) (n : ℤ) :
    (scaled s a (max (-2200) (min 2200 n)) : Double) = scaled s a n := by
  have hbits : (BinaryFormat.double.fractionBits + 2 * BinaryFormat.double.bias : ℤ) = 2098 := rfl
  rcases lt_or_ge n (-2200) with hlow | hlow
  · rw [scaled_of_small ha (by omega), scaled_of_small ha (by omega)]
  · rcases lt_or_ge 2200 n with hhigh | hhigh
    · rcases Nat.eq_zero_or_pos a with rfl | hpos
      · exact ofUnits_congr s (Nat.two_pow_pos _) (Nat.two_pow_pos _) (by simp)
      · rw [scaled_of_large hpos (by omega), scaled_of_large hpos (by omega)]
    · congr 1
      omega

/-- The steps come to one scaling, which rounds once. -/
theorem HasUnits.scalb {x : Double} (hx : x.HasUnits s a) (n : ℤ) :
    x.scalb n = scaled s a n := by
  have hunits : BinaryFormat.double.unitBits = 1074 := rfl
  have hbits : BinaryFormat.double.fractionBits = 52 := rfl
  have hbias : BinaryFormat.double.bias = 1023 := rfl
  have ha : a < BinaryFormat.double.units BinaryFormat.double.ranks := by
    obtain ⟨rank, -, rfl⟩ := hx
    exact BinaryFormat.double.units_strictMono rank.isLt
  have hmagnitude : BinaryFormat.double.IsMagnitude a := by
    obtain ⟨rank, -, hrank⟩ := hx
    exact ⟨rank, hrank⟩
  rw [← scaled_clamp ha n, Binary.scalb]
  generalize max (-2200) (min 2200 n) = m
  have hpart := tmod_cases m 1000
  rw [hx.mul_twoPower (by omega) (by omega)]
  rcases lt_trichotomy m 0 with hneg | rfl | hpos
  · rw [Int.sign_eq_neg_one_of_neg hneg, mulTimes_scaled _ _ (by omega)]
    · congr 1
      omega
    · intro m hm
      exact scaled_mul_down hmagnitude ha (by omega) (by omega) (by omega)
  · rfl
  · rw [Int.sign_eq_one_of_pos hpos, mulTimes_scaled _ _ (by omega)]
    · congr 1
      omega
    · intro m hm
      exact scaled_mul_up hmagnitude (by omega) (by omega) (by omega)

theorem scalb_rounds {x : Double} (hx : x.isFinite) (n : ℤ) :
    (x.scalb n).Rounds x.isNegative (|x.stored| * 2 ^ n) := by
  obtain ⟨s, a, hunits⟩ := exists_hasUnits hx
  obtain ⟨rank, hrank, rfl⟩ := id hunits
  rw [hunits.scalb, hunits.isNegative, hrank, abs_stored]
  exact scaled_rounds s _ n

end Binary

namespace Operation

open Binary

/-- A finite double rounds to the whole number below one half more, clamped to the words, and it
scales by a power of two as its exact value does, rounded once. -/
theorem round_scalb_nearest {x : Double} (hx : x.isFinite) :
    (∃ n : Int64, (invoke "round" [.double x]).result = .ok (.long n) ∧
      n.toInt = Max.max Int64.minValue.toInt (Min.min Int64.maxValue.toInt ⌊x.stored + 1 / 2⌋)) ∧
    ∀ n : Int64, ∃ r : Double, (invoke "scalb" [.double x, .long n]).result = .ok (.double r) ∧
      r.Rounds x.isNegative (|x.stored| * 2 ^ n.toInt) := by
  constructor
  · refine ⟨Int64.ofInt (x.roundClamped Int64.minValue.toInt Int64.maxValue.toInt), ?_, ?_⟩
    · rw [invoke_result rfl rfl]
      rfl
    · have hmin : Int64.minValue.toInt = -2 ^ 63 := rfl
      have hmax : Int64.maxValue.toInt = 2 ^ 63 - 1 := rfl
      rw [roundClamped_eq _ _ hx]
      apply Int64.toInt_ofInt_of_le <;> omega
  · intro n
    refine ⟨x.scalb n.toInt, ?_, scalb_rounds hx n.toInt⟩
    rw [invoke_result rfl rfl]
    rfl

/-- Three units below zero the fraction is rounded to one, and half of them lies between one and
two. -/
theorem round_scalb_nearest_three_units :
    let x : Double := finite true ⟨3, by decide⟩
    x.isFinite ∧ x.sub x.floor = ofInt 1 ∧
    (invoke "round" [.double x]).result = .ok (.long 0) ∧
    (invoke "scalb" [.double x, .long (-1)]).result =
      .ok (.double (finite true ⟨2, by decide⟩)) := by
  intro x
  obtain ⟨⟨n, hround, hn⟩, hscalb⟩ := round_scalb_nearest (x := x) rfl
  obtain ⟨r, hr, hrounds⟩ := hscalb (-1)
  have hunits : x.HasUnits true 3 := ⟨_, rfl, rfl⟩
  have hzero : n = 0 := by
    apply Int64.toInt.inj
    rw [hn, floor_half_add hunits.units?]
    decide +kernel
  have hnearest : x.scalb (-1) = finite true ⟨2, by decide⟩ := by
    rw [hunits.scalb]
    decide +kernel
  have hword : Int64.toInt (-1) = -1 := rfl
  have htie : r = finite true ⟨2, by decide⟩ := by
    rw [hword] at hrounds
    rw [← hnearest]
    clear_value x
    exact hrounds.unique (scalb_rounds hunits.isFinite (-1))
  exact ⟨rfl, by decide +kernel, hzero ▸ hround, htie ▸ hr⟩

end Operation

end Reckoner
