import Reckoner.Evaluation.Operation
import Reckoner.Proofs.ExactDifferences
import Reckoner.Proofs.WholeDoubles

namespace Reckoner

/-- What a quotient of natural numbers rounded to a whole one leaves, halfway cases to the even
one. -/
def evenRest (num den : ℕ) : ℤ :=
  num - roundHalfEven num den * den

theorem evenRest_eq (num den : ℕ) :
    evenRest num den =
      if den < 2 * (num % den) ∨ 2 * (num % den) = den ∧ num / den % 2 = 1
      then ((num % den : ℕ) : ℤ) - den else (num % den : ℕ) := by
  have hnum : (num : ℤ) = (num / den : ℕ) * den + (num % den : ℕ) := by
    exact_mod_cast (Nat.div_add_mod' num den).symm
  unfold evenRest
  rcases roundHalfEven_cases num den with ⟨h, hround⟩ | ⟨h, hround⟩ | ⟨h, hround⟩
  · rw [hround, if_neg (by omega)]
    omega
  · rw [hround, if_pos (Or.inl h), Nat.cast_succ, add_mul]
    omega
  · rcases Nat.mod_two_eq_zero_or_one (num / den) with heven | hodd
    · rw [hround, if_neg (by omega), heven, Nat.add_zero]
      omega
    · rw [hround, if_pos (Or.inr ⟨h, hodd⟩), hodd, Nat.cast_succ, add_mul]
      omega

/-- Twice the divisor taken off leaves the parity of the quotient as it is. -/
theorem evenRest_mod_two_mul (num den : ℕ) : evenRest (num % (2 * den)) den = evenRest num den := by
  rw [evenRest_eq, evenRest_eq, Nat.mod_mul_left_mod, Nat.mul_comm 2 den,
    Nat.mod_mul_right_div_self, Nat.mod_mod]

/-- A sign that is put on a whole number. -/
theorem signed_natAbs (negative : Bool) (n : ℤ) :
    (if (decide (n < 0) != negative) = true then -(n.natAbs : ℤ) else n.natAbs) =
      if negative then -n else n := by
  cases negative with
  | false =>
    simp only [Bool.bne_false, decide_eq_true_eq, Bool.false_eq_true, if_false]
    split <;> omega
  | true =>
    simp only [Bool.bne_true, Bool.not_eq_true', decide_eq_false_iff_not, if_true]
    split <;> omega

namespace Binary

variable {f : BinaryFormat} {x y divisor rest : Binary f} {negative s t : Bool} {a b : ℕ}

/-- What a divisor leaves of less than its double. -/
theorem HasUnits.mod_of_lt (hd : divisor.HasUnits false b) (hr : rest.HasUnits false a)
    (hlt : a < 2 * b) : (if b ≤ a then rest.sub divisor else rest).HasUnits false (a % b) := by
  split
  · rename_i hle
    have hmod : ((a : ℤ) - b).natAbs = a % b := by
      rw [Nat.mod_eq_sub_mod hle, Nat.mod_eq_of_lt (by omega)]
      omega
    have hmagnitude := BinaryFormat.isMagnitude_mod hr.isMagnitude hd.isMagnitude (by omega)
    have hsub := hr.sub hd (hmod ▸ hmagnitude)
    rwa [hmod, decide_eq_false (by omega)] at hsub
  · rename_i hgt
    rwa [Nat.mod_eq_of_lt (by omega)]

/-- The halfway case goes to the even multiple, which is the divisor's double if the quotient is
odd. -/
theorem HasUnits.nearestRest (hd : divisor.HasUnits false b) (hr : rest.HasUnits false a)
    (hlt : a < 2 * b) :
    (nearestRest divisor rest).HasUnits (decide (evenRest a b < 0)) (evenRest a b).natAbs := by
  have hrest := Nat.mod_lt a (show 0 < b by omega)
  have hparity : b ≤ a ↔ a / b % 2 = 1 := by
    rcases Nat.lt_or_ge a b with hless | hle
    · rw [Nat.div_eq_of_lt hless]
      omega
    · rw [Nat.div_eq_of_lt_le (k := 1) (by omega) (by omega)]
      omega
  have hodd : (rest.compare? divisor).any Ordering.isGE = decide (b ≤ a) := by
    rw [hr.compare? hd, Option.any_some, Bool.eq_iff_iff, Nat.isGE_compare, decide_eq_true_iff]
  have hlow := hd.mod_of_lt hr hlt
  unfold Binary.nearestRest
  simp only [hodd, decide_eq_true_eq]
  generalize (if b ≤ a then rest.sub divisor else rest) = low at hlow ⊢
  simp only [hd.compare?_sub hlow hrest.le, Option.some.injEq, compare_gt_iff_gt,
    compare_eq_iff_eq, hparity, evenRest_eq]
  split
  · rename_i hmore
    have hmagnitude : f.IsMagnitude (((a % b : ℕ) : ℤ) - b).natAbs := by
      have h := BinaryFormat.isMagnitude_sub hd.isMagnitude hlow.isMagnitude (by omega)
      rwa [show (((a % b : ℕ) : ℤ) - b).natAbs = b - a % b by omega]
    have hsub := hlow.sub hd hmagnitude
    rwa [decide_eq_decide.mpr (show a % b < b ↔ ((a % b : ℕ) : ℤ) - b < 0 by omega)] at hsub
  · rw [decide_eq_false (by omega)]
    exact hlow

/-- The double of a divisor is exact, or past the last finite magnitude. -/
theorem HasUnits.two_mul (hy : y.HasUnits t b) {rank : ℕ} (hrank : f.units rank = 2 * b) :
    (ofInt 2 : Binary f).mul y.abs =
      if hlt : rank < f.ranks then finite false ⟨rank, hlt⟩ else infinite false := by
  have hbinade := f.binade_pos
  have hscale : (f.scale : ℚ) ≠ 0 := by exact_mod_cast f.scale_pos.ne'
  obtain ⟨two, htwo, hvalue⟩ := exists_ofInt_eq (f := f) 2 (show 2 ≤ 2 * f.binade by omega)
  have hunits : f.units two = 2 * f.scale := by
    rw [BinaryFormat.value, div_eq_iff hscale] at hvalue
    exact_mod_cast hvalue
  obtain ⟨right, rfl, rfl⟩ := hy
  rw [htwo]
  apply ofUnits_of_units false f.scale_pos
  rw [hunits, hrank]
  ring

/-- Where the double of the divisor is past the last finite magnitude, it is above the number. -/
theorem HasUnits.rem_two_mul (hx : x.HasUnits s a) (hy : y.HasUnits t b) (hb : 0 < b) :
    (x.rem ((ofInt 2).mul y.abs)).HasUnits s (a % (2 * b)) := by
  obtain ⟨rank, hrank⟩ := BinaryFormat.isMagnitude_two_mul hy.isMagnitude
  rw [hy.two_mul hrank]
  split
  · rename_i hlt
    have hdouble : (finite false ⟨rank, hlt⟩ : Binary f).HasUnits false (2 * b) := ⟨_, rfl, hrank⟩
    exact hx.rem hdouble (by omega)
  · rename_i hge
    have hless : a < 2 * b :=
      hrank ▸ hx.lt_units_ranks.trans_le (f.units_strictMono.monotone (Nat.not_lt.mp hge))
    rw [Nat.mod_eq_of_lt hless]
    obtain ⟨left, rfl, rfl⟩ := hx
    exact hasUnits_finite s left

/-- The remainder of the magnitudes, with the sign of the dividend. -/
theorem HasUnits.ieeeRemainder (hx : x.HasUnits s a) (hy : y.HasUnits t b) (hb : 0 < b) :
    (ieeeRemainder x y).HasUnits (decide (evenRest a b < 0) != s) (evenRest a b).natAbs := by
  have hrest := (hx.rem_two_mul hy hb).abs
  have hnearest := hy.abs.nearestRest hrest (Nat.mod_lt a (by omega))
  rw [evenRest_mod_two_mul] at hnearest
  obtain ⟨left, rfl, rfl⟩ := hx
  obtain ⟨right, rfl, rfl⟩ := hy
  rw [Binary.ieeeRemainder, if_neg (BinaryFormat.rank_ne_zero hb)]
  cases s with
  | false => simpa using hnearest
  | true => simpa using hnearest.neg

theorem HasUnits.halfEven_div (hx : x.HasUnits s a) (hy : y.HasUnits t b) (hb : 0 < b) :
    halfEven (x.stored / y.stored) =
      if s = t then (roundHalfEven a b : ℤ) else -(roundHalfEven a b : ℤ) := by
  have hscale : (f.scale : ℚ) ≠ 0 := by exact_mod_cast f.scale_pos.ne'
  rw [hx.stored, hy.stored, div_div_div_cancel_right₀ hscale, ← Reckoner.halfEven_div a hb]
  cases s <;> cases t <;> simp [neg_div, div_neg, halfEven_neg]

/-- The sign of the divisor is in the quotient as well, and so makes no difference. -/
theorem HasUnits.stored_ieeeRemainder (hx : x.HasUnits s a) (hy : y.HasUnits t b) (hb : 0 < b) :
    (x.ieeeRemainder y).stored = x.stored - halfEven (x.stored / y.stored) * y.stored := by
  rw [(hx.ieeeRemainder hy hb).stored, signed_natAbs, hx.halfEven_div hy hb, hx.stored, hy.stored,
    evenRest]
  cases s <;> cases t <;> simp <;> ring

end Binary

namespace Operation

open Binary

/-- The remainder of two doubles is what the number next to their quotient leaves, halfway cases
taken to the even one. It is not rounded, and a zero has the sign of the dividend. -/
theorem ieeeRemainder_exact {x y : Double} (hx : x.isFinite) (hy : y.isFinite)
    (hzero : y.stored ≠ 0) :
    ∃ r : Double, (invoke "IEEEremainder" [.double x, .double y]).result = .ok (.double r) ∧
      r.isFinite ∧
      (∃ k : ℤ, IsHalfEven (x.stored / y.stored) k ∧ r.stored = x.stored - k * y.stored) ∧
      |r.stored| ≤ |y.stored| / 2 ∧ (r.stored = 0 → r.isNegative = x.isNegative) := by
  obtain ⟨s, a, hx⟩ := exists_hasUnits hx
  obtain ⟨t, b, hy⟩ := exists_hasUnits hy
  have hb : 0 < b := Nat.pos_of_ne_zero fun h => hzero (hy.stored_eq_zero_iff.mpr h)
  have hr := hx.ieeeRemainder hy hb
  have hstored := hx.stored_ieeeRemainder hy hb
  refine ⟨x.ieeeRemainder y, invoke_binary rfl x y, hr.isFinite,
    ⟨_, halfEven_isHalfEven _, hstored⟩, ?_, fun h => ?_⟩
  · have hsplit : x.stored = x.stored / y.stored * y.stored := (div_mul_cancel₀ _ hzero).symm
    calc |(x.ieeeRemainder y).stored|
        = |halfEven (x.stored / y.stored) - x.stored / y.stored| * |y.stored| := by
          rw [← abs_mul, sub_mul, ← hsplit, abs_sub_comm, hstored]
      _ ≤ 1 / 2 * |y.stored| :=
          mul_le_mul_of_nonneg_right (abs_halfEven_sub_le _) (abs_nonneg _)
      _ = |y.stored| / 2 := by ring
  · have hrest : evenRest a b = 0 := Int.natAbs_eq_zero.mp (hr.stored_eq_zero_iff.mp h)
    rw [hr.isNegative, hx.isNegative, hrest]
    exact Bool.false_xor s

/-- Twice the divisor is past the last finite double here. -/
theorem ieeeRemainder_exact_largest :
    let x : Double := finite false ⟨2047 * 2 ^ 52 - 1, by decide⟩
    let y : Double := finite false ⟨2046 * 2 ^ 52, by decide⟩
    x.isFinite ∧ y.isFinite ∧ y.stored ≠ 0 ∧ (ofInt 2 : Double).mul y = infinite false ∧
    ∃ r : Double, (invoke "IEEEremainder" [.double x, .double y]).result = .ok (.double r) ∧
      r.stored = x.stored - 2 * y.stored := by
  intro x y
  -- both are in the last block, whose step is not computed
  obtain ⟨step, hstep, hblock⟩ := BinaryFormat.double.exists_step 2045
  have hx : x.stored = (2 ^ 53 - 1 : ℕ) * step := by
    rw [← hblock _ (Or.inr (by decide)) (by decide)]
    exact congrArg BinaryFormat.double.value (by decide)
  have hy : y.stored = (2 ^ 52 : ℕ) * step := by
    rw [← hblock _ (Or.inr (by decide)) (by decide)]
    exact congrArg BinaryFormat.double.value (by decide)
  have hzero : y.stored ≠ 0 := by
    rw [hy]
    exact mul_ne_zero (by norm_num) hstep.ne'
  have hquotient : IsHalfEven (x.stored / y.stored) 2 := by
    rw [hx, hy, mul_div_mul_right _ _ hstep.ne']
    apply isHalfEven_of_lt
    · norm_num
    · norm_num
  obtain ⟨r, hinvoke, -, ⟨k, hk, hr⟩, -⟩ := ieeeRemainder_exact (x := x) (y := y) rfl rfl hzero
  rw [hk.unique hquotient] at hr
  exact ⟨rfl, rfl, hzero, by decide +kernel, r, hinvoke, hr⟩

end Operation

end Reckoner
