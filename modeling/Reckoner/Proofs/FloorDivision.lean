import Mathlib.Data.Int.ModEq
import Mathlib.Data.Rat.Floor
import Reckoner.Evaluation.Operation

namespace Reckoner

/-- What a quotient rounded down leaves: less than the divisor, and of its sign. -/
structure IsFloorRemainder (x y r : ℤ) : Prop where
  congr : r ≡ x [ZMOD y]
  small : |r| < |y|
  sign : r = 0 ∨ r.sign = y.sign

section

variable {x y r : ℤ}

/-- A remainder of the divisor's sign lies between zero and the divisor. -/
theorem small_and_sign_iff (hy : y ≠ 0) :
    (|r| < |y| ∧ (r = 0 ∨ r.sign = y.sign)) ↔ 0 < y ∧ 0 ≤ r ∧ r < y ∨ y < 0 ∧ y < r ∧ r ≤ 0 := by
  rcases lt_or_gt_of_ne hy with hneg | hpos
  · rw [abs_of_neg hneg, Int.sign_eq_neg_one_of_neg hneg, Int.sign_eq_neg_one_iff_neg, abs_lt]
    omega
  · rw [abs_of_pos hpos, Int.sign_eq_one_of_pos hpos, Int.sign_eq_one_iff_pos, abs_lt]
    omega

theorem fmod_between (x : ℤ) (hy : y ≠ 0) :
    0 < y ∧ 0 ≤ x.fmod y ∧ x.fmod y < y ∨ y < 0 ∧ y < x.fmod y ∧ x.fmod y ≤ 0 := by
  rcases lt_or_gt_of_ne hy with hneg | hpos
  · exact Or.inr ⟨hneg, ((Int.fdiv_fmod_unique' hneg).mp ⟨rfl, rfl⟩).2⟩
  · exact Or.inl ⟨hpos, ((Int.fdiv_fmod_unique hpos).mp ⟨rfl, rfl⟩).2⟩

/-- There is just one such remainder. -/
theorem isFloorRemainder_iff (hy : y ≠ 0) : IsFloorRemainder x y r ↔ r = x.fmod y := by
  constructor
  · intro h
    obtain ⟨k, hk⟩ := h.congr.dvd
    have hsum : r + y * k = x := by omega
    rcases (small_and_sign_iff hy).mp ⟨h.small, h.sign⟩ with ⟨hpos, hrange⟩ | ⟨hneg, hrange⟩
    · exact ((Int.fdiv_fmod_unique hpos).mpr ⟨hsum, hrange⟩).2.symm
    · exact ((Int.fdiv_fmod_unique' hneg).mpr ⟨hsum, hrange⟩).2.symm
  · intro h
    subst h
    obtain ⟨hsmall, hsign⟩ := (small_and_sign_iff hy).mpr (fmod_between x hy)
    exact ⟨Int.modEq_iff_dvd.mpr Int.dvd_self_sub_fmod, hsmall, hsign⟩

theorem floor_div_eq_fdiv (hy : y ≠ 0) : ⌊(x : ℚ) / y⌋ = x.fdiv y := by
  have hsum : (x.fdiv y : ℚ) * y + x.fmod y = x := by exact_mod_cast x.fdiv_mul_add_fmod y
  rw [Int.floor_eq_iff]
  rcases fmod_between x hy with ⟨hpos, hlow, hhigh⟩ | ⟨hneg, hlow, hhigh⟩
  · have hpos' : (0 : ℚ) < y := by exact_mod_cast hpos
    have hlow' : (0 : ℚ) ≤ x.fmod y := by exact_mod_cast hlow
    have hhigh' : (x.fmod y : ℚ) < y := by exact_mod_cast hhigh
    rw [le_div_iff₀ hpos', div_lt_iff₀ hpos']
    constructor
    · linarith
    · linarith
  · have hneg' : (y : ℚ) < 0 := by exact_mod_cast hneg
    have hlow' : (y : ℚ) < x.fmod y := by exact_mod_cast hlow
    have hhigh' : (x.fmod y : ℚ) ≤ 0 := by exact_mod_cast hhigh
    rw [le_div_iff_of_neg hneg', div_lt_iff_of_neg hneg']
    constructor
    · linarith
    · linarith

end

namespace Operation

variable {x y : Int64}

theorem toInt_ne_zero (hy : y ≠ 0) : y.toInt ≠ 0 := by
  intro h
  exact hy (Int64.toInt_inj.mp h)

/-- A quotient is cut up if it is negative and not whole. -/
theorem isCutUp_iff :
    isCutUp x y ↔ ¬y.toInt ∣ x.toInt ∧ ¬(x.toInt < 0 ↔ y.toInt < 0) := by
  have hrest : x % y = 0 ↔ y.toInt ∣ x.toInt := by
    rw [← Int64.toInt_inj, Int64.toInt_mod, Int.dvd_iff_tmod_eq_zero, Int64.toInt_zero]
  rw [isCutUp, Bool.and_eq_true, bne_iff_ne, bne_iff_ne, ne_eq, hrest, ne_eq, decide_eq_decide,
    Int64.lt_iff_toInt_lt, Int64.lt_iff_toInt_lt, Int64.toInt_zero]

theorem fdiv_eq_tdiv_sub (hy : y ≠ 0) :
    x.toInt.fdiv y.toInt = x.toInt.tdiv y.toInt - if isCutUp x y then 1 else 0 := by
  rw [Int.fdiv_eq_tdiv]
  by_cases hdvd : y.toInt ∣ x.toInt
  · have hcut : ¬isCutUp x y := fun h => (isCutUp_iff.mp h).1 hdvd
    rw [if_pos hdvd, if_neg hcut]
  · rw [if_neg hdvd]
    simp only [isCutUp_iff, hdvd, not_false_eq_true, true_and]
    rcases lt_or_gt_of_ne (toInt_ne_zero hy) with hneg | hpos
    · rw [Int.sign_eq_neg_one_of_neg hneg]
      split <;> omega
    · rw [Int.sign_eq_one_of_pos hpos]
      split <;> omega

/-- The word has the low bits of the quotient rounded down, also where no word is that quotient. -/
theorem floorQuotient_eq (hy : y ≠ 0) :
    floorQuotient x y = Int64.ofInt (x.toInt.fdiv y.toInt) := by
  have hquotient : Int64.ofInt (x.toInt.tdiv y.toInt) = x / y := by
    rw [Int64.ofInt_tdiv x.minValue_le_toInt x.toInt_le y.minValue_le_toInt y.toInt_le,
      Int64.ofInt_toInt, Int64.ofInt_toInt]
  rw [fdiv_eq_tdiv_sub hy, Int64.ofInt_sub, hquotient, floorQuotient]
  split
  · rfl
  · exact (Int64.sub_zero _).symm

/-- The quotient and its product with the divisor may wrap around, but both by the same. -/
theorem toInt_floorRemainder (hy : y ≠ 0) :
    (floorRemainder x y).toInt = x.toInt.fmod y.toInt := by
  have hword : floorRemainder x y = Int64.ofInt (x.toInt.fmod y.toInt) := by
    rw [floorRemainder, floorQuotient_eq hy, Int.fmod_def, mul_comm, Int64.ofInt_sub,
      Int64.ofInt_mul, Int64.ofInt_toInt, Int64.ofInt_toInt]
  have hbetween := fmod_between x.toInt (toInt_ne_zero hy)
  have hlow := y.le_toInt
  have hhigh := y.toInt_lt
  rw [hword, Int64.toInt_ofInt_of_le]
  · omega
  · omega

/-- The quotient of the least word by minus one is the only one that no word is. -/
theorem fdiv_bounds (hy : y ≠ 0) :
    -2 ^ 63 ≤ x.toInt.fdiv y.toInt ∧
      (x.toInt.fdiv y.toInt < 2 ^ 63 ∨ x = Int64.minValue ∧ y = -1) := by
  have hmagnitude := Int.natAbs_fdiv_le_natAbs x.toInt y.toInt
  have hsum := x.toInt.fdiv_mul_add_fmod y.toInt
  have hbetween := fmod_between x.toInt (toInt_ne_zero hy)
  have hlow := x.le_toInt
  have hhigh := x.toInt_lt
  refine ⟨by omega, ?_⟩
  rcases lt_or_ge (x.toInt.fdiv y.toInt) (2 ^ 63) with hlt | hge
  · exact Or.inl hlt
  · right
    have hquotient : x.toInt.fdiv y.toInt = 2 ^ 63 := by omega
    rw [hquotient] at hsum
    have hx : x.toInt = Int64.minValue.toInt := by
      rw [Int64.toInt_minValue]
      omega
    have hy' : y.toInt = (-1 : Int64).toInt := by
      rw [Int64.toInt_minValue] at hx
      change y.toInt = -1
      omega
    exact ⟨Int64.toInt_inj.mp hx, Int64.toInt_inj.mp hy'⟩

theorem toInt_floorQuotient (hy : y ≠ 0) (hword : ¬(x = Int64.minValue ∧ y = -1)) :
    (floorQuotient x y).toInt = x.toInt.fdiv y.toInt := by
  obtain ⟨hlow, hhigh⟩ := fdiv_bounds (x := x) hy
  rw [floorQuotient_eq hy, Int64.toInt_ofInt_of_le hlow (hhigh.resolve_right hword)]

/-- The step down from a quotient that is cut up stays in the words. -/
theorem toInt_div_sub_one (hy : y ≠ 0) (hcut : isCutUp x y) :
    (x / y - 1).toInt = (x / y).toInt - 1 := by
  have hword : ¬(x = Int64.minValue ∧ y = -1) := by
    rintro ⟨rfl, rfl⟩
    exact absurd hcut (by decide)
  have hquotient : (x / y).toInt = x.toInt.tdiv y.toInt := by
    rcases Decidable.not_and_iff_or_not.mp hword with hx | hy'
    · exact Int64.toInt_div_of_ne_left x y hx
    · exact Int64.toInt_div_of_ne_right x y hy'
  have hfloor := toInt_floorQuotient hy hword
  rwa [floorQuotient, if_pos hcut, fdiv_eq_tdiv_sub hy, if_pos hcut, ← hquotient] at hfloor

/-- The words of a quotient rounded down and of what it leaves sum up as the numbers do. -/
theorem floorQuotient_mul_add_floorRemainder (hy : y ≠ 0) :
    (floorQuotient x y).toInt * y.toInt + (floorRemainder x y).toInt ≡ x.toInt [ZMOD 2 ^ 64] := by
  have hdvd : (2 ^ 64 : ℤ) ∣ x.toInt.fdiv y.toInt - (floorQuotient x y).toInt := by
    rw [floorQuotient_eq hy, Int64.toInt_ofInt]
    exact Int.dvd_self_sub_bmod
  have hsum := x.toInt.fdiv_mul_add_fmod y.toInt
  have hdifference : x.toInt - ((floorQuotient x y).toInt * y.toInt + x.toInt.fmod y.toInt) =
      (x.toInt.fdiv y.toInt - (floorQuotient x y).toInt) * y.toInt := by
    rw [Int.sub_mul]
    omega
  rw [toInt_floorRemainder hy, Int.modEq_iff_dvd, hdifference]
  exact Dvd.dvd.mul_right hdvd y.toInt

theorem bind_divisor (name : String) (g : Int64 → Value) :
    (divisor name [.long x, .long y] >>= fun y => Except.ok (g y)) =
      if y = 0 then .error (.evaluation name .zeroDivisor) else .ok (g y) := by
  have hdivisor : divisor name [.long x, .long y] =
      if y = 0 then .error (.evaluation name .zeroDivisor) else .ok y := rfl
  rw [hdivisor]
  split
  · rfl
  · rfl

theorem invoke_floorDiv :
    (invoke "floorDiv" [.long x, .long y]).result =
      if y = 0 then .error (.evaluation "floorDiv" .zeroDivisor)
      else .ok (.long (floorQuotient x y)) := by
  rw [invoke_result rfl rfl]
  exact bind_divisor "floorDiv" fun y => .long (floorQuotient x y)

theorem invoke_floorMod :
    (invoke "floorMod" [.long x, .long y]).result =
      if y = 0 then .error (.evaluation "floorMod" .zeroDivisor)
      else .ok (.long (floorRemainder x y)) := by
  rw [invoke_result rfl rfl]
  exact bind_divisor "floorMod" fun y => .long (floorRemainder x y)

/-- Quotients of words are rounded down, with one exception that wraps around, and what they leave is
exact. The step down to a quotient never wraps around, and a zero divisor has no quotient. -/
theorem floor_division (x y : Int64) :
    (y ≠ 0 → ∃ q r : Int64,
      (invoke "floorDiv" [.long x, .long y]).result = .ok (.long q) ∧
      (invoke "floorMod" [.long x, .long y]).result = .ok (.long r) ∧
      (∀ rest, IsFloorRemainder x.toInt y.toInt rest ↔ rest = r.toInt) ∧
      (¬(x = Int64.minValue ∧ y = -1) → q.toInt = ⌊(x.toInt : ℚ) / y.toInt⌋) ∧
      (x = Int64.minValue → y = -1 → q = Int64.minValue) ∧
      q.toInt * y.toInt + r.toInt ≡ x.toInt [ZMOD 2 ^ 64] ∧
      (isCutUp x y → (x / y - 1).toInt = (x / y).toInt - 1)) ∧
    (y = 0 → ∀ name, name = "floorDiv" ∨ name = "floorMod" →
      (invoke name [.long x, .long y]).result = .error (.evaluation name .zeroDivisor)) ∧
    Failure.zeroDivisor.message = "/ by zero" := by
  refine ⟨fun hy => ⟨floorQuotient x y, floorRemainder x y, ?_, ?_, ?_, ?_, ?_, ?_, ?_⟩, ?_, rfl⟩
  · rw [invoke_floorDiv, if_neg hy]
  · rw [invoke_floorMod, if_neg hy]
  · intro rest
    rw [toInt_floorRemainder hy]
    exact isFloorRemainder_iff (toInt_ne_zero hy)
  · intro hword
    rw [toInt_floorQuotient hy hword, floor_div_eq_fdiv (toInt_ne_zero hy)]
  · intro hx hy'
    subst hx hy'
    decide
  · exact floorQuotient_mul_add_floorRemainder hy
  · exact toInt_div_sub_one hy
  · intro hy name hname
    rcases hname with rfl | rfl
    · rw [invoke_floorDiv, if_pos hy]
    · rw [invoke_floorMod, if_pos hy]

/-- The quotient times the divisor is past the words here, and what is left is exact. -/
theorem floor_division_least :
    (3 : Int64) ≠ 0 ∧ ∃ q r : Int64,
      (invoke "floorDiv" [.long Int64.minValue, .long 3]).result = .ok (.long q) ∧
      (invoke "floorMod" [.long Int64.minValue, .long 3]).result = .ok (.long r) ∧
      q.toInt * 3 < Int64.minValue.toInt ∧ r = 1 := by
  have hy : (3 : Int64) ≠ 0 := by decide
  have hword : ¬(Int64.minValue = Int64.minValue ∧ (3 : Int64) = -1) := by decide
  have hrest : IsFloorRemainder Int64.minValue.toInt (3 : Int64).toInt 1 :=
    ⟨by decide, by decide, Or.inr rfl⟩
  obtain ⟨q, r, hq, hr, hunique, hfloor, -⟩ := (floor_division Int64.minValue 3).1 hy
  have hthree : (3 : Int64).toInt = 3 := by decide
  have hquotient : q.toInt = -3074457345618258603 := by
    rw [hfloor hword, Int.floor_eq_iff, Int64.toInt_minValue, hthree]
    norm_num
  have hremainder : r.toInt = (1 : Int64).toInt := ((hunique 1).mp hrest).symm
  refine ⟨hy, q, r, hq, hr, ?_, Int64.toInt_inj.mp hremainder⟩
  rw [hquotient]
  decide

end Operation

end Reckoner
