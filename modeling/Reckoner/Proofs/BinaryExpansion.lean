import Reckoner.Expansion
import Reckoner.Proofs.BinaryNearest

namespace Reckoner

namespace Exact

/-- What the loop keeps: the product so far times the power that is left. -/
theorem value_powerFrom (product square : Exact) (exponent : ℕ) :
    (powerFrom product square exponent).value = product.value * square.value ^ exponent := by
  fun_induction powerFrom product square exponent with
  | case1 product square => rw [pow_zero, mul_one]
  | case2 product square exponent hne product' rest square' ih =>
    have hproduct : product'.value = product.value * square.value ^ (exponent % 2) := by
      rcases Nat.mod_two_eq_zero_or_one exponent with heven | hodd
      · simp [product', heven]
      · simp [product', hodd]
    have hsquare : square'.value ^ rest = (square.value ^ 2) ^ rest := by
      rcases Nat.eq_zero_or_pos rest with hlast | hmore
      · rw [hlast, pow_zero, pow_zero]
      · simp only [square', dif_pos hmore, value_mul, pow_two]
    calc (powerFrom product' square' rest).value
        = product'.value * square'.value ^ rest := ih
      _ = product.value * square.value ^ (exponent % 2 + 2 * rest) := by
          rw [hproduct, hsquare, mul_assoc, ← pow_mul, ← pow_add]
      _ = product.value * square.value ^ exponent := by rw [Nat.mod_add_div]

theorem value_power (base : Exact) (exponent : ℕ) :
    (base.power exponent).value = base.value ^ exponent := by
  rw [power, value_powerFrom, value_one, one_mul]

/-- Powers of two, the negative ones as powers of one half. -/
theorem value_power_two (exponent : ℤ) :
    ((if 0 ≤ exponent then ofInt 2 else ⟨5, -1⟩ : Exact).power exponent.natAbs).value =
      2 ^ exponent := by
  rw [value_power]
  split
  · rename_i hnonneg
    rw [value_ofInt, ← zpow_natCast, Int.natAbs_of_nonneg hnonneg, Int.cast_ofNat]
  · rename_i hneg
    have hhalf : (⟨5, -1⟩ : Exact).value = 2⁻¹ := by norm_num [value]
    have habs : (exponent.natAbs : ℤ) = -exponent := Int.ofNat_natAbs_of_nonpos (by omega)
    rw [hhalf, ← zpow_natCast, habs, inv_zpow', neg_neg]

end Exact

namespace Binary

variable {x : Double} {word : UInt64} {biased fraction : ℕ}

theorem signBit_eq : signBit = 2 ^ 63 :=
  rfl

theorem ranks_lt_signBit : BinaryFormat.double.ranks + 1 < 2 ^ 63 := by
  decide

theorem magnitude_lt_signBit (x : Double) : x.magnitude < 2 ^ 63 := by
  have hranks := ranks_lt_signBit
  cases x with
  | nan => exact hranks
  | infinite => exact (Nat.lt_succ_self _).trans hranks
  | finite _ rank => exact rank.isLt.trans ((Nat.lt_succ_self _).trans hranks)

theorem toNat_bits (x : Double) :
    x.bits.toNat = (if x.isNegative then 2 ^ 63 else 0) + x.magnitude := by
  have hmagnitude := magnitude_lt_signBit x
  rw [bits, signBit_eq, UInt64.toNat_ofNat', Nat.mod_eq_of_lt]
  split <;> omega

/-- The eleven bits above the fraction, without the sign. -/
theorem toNat_biased (hword : word.toNat = biased * 2 ^ 52 + fraction)
    (hbiased : biased < 2 ^ 11) (hfraction : fraction < 2 ^ 52) :
    ((word >>> 52) &&& 0x7ff).toNat = biased := by
  have hmask : (0x7ff : UInt64).toNat = 2 ^ 11 - 1 := rfl
  have hshift : (52 : UInt64).toNat % 64 = 52 := rfl
  rw [UInt64.toNat_and, UInt64.toNat_shiftRight, hmask, hshift, hword,
    Nat.and_two_pow_sub_one_eq_mod, Nat.shiftRight_eq_div_pow]
  omega

theorem toNat_fraction (hword : word.toNat = biased * 2 ^ 52 + fraction)
    (hfraction : fraction < 2 ^ 52) :
    (word &&& (leadingBit - 1)).toNat = fraction := by
  have hmask : (leadingBit - 1).toNat = 2 ^ 52 - 1 := by decide +kernel
  rw [UInt64.toNat_and, hmask, hword, Nat.and_two_pow_sub_one_eq_mod]
  omega

theorem toNat_or_leadingBit (hword : word.toNat = fraction) (hfraction : fraction < 2 ^ 52) :
    (word ||| leadingBit).toNat = 2 ^ 52 + fraction := by
  have hbit : leadingBit.toNat = 2 ^ 52 * 1 := by decide +kernel
  rw [UInt64.toNat_or, hword, hbit, Nat.or_comm, ← Nat.two_pow_add_eq_or_of_lt hfraction,
    Nat.mul_one]

/-- The expansion by the two fields of the word: numbers with the least exponent have no leading
bit, and share the exponent of those after them. -/
theorem value_expansion (hword : x.bits.toNat = biased * 2 ^ 52 + fraction)
    (hbiased : biased < 2 ^ 11) (hfraction : fraction < 2 ^ 52) :
    x.expansion.value =
      if biased = 0 then (fraction : ℚ) * 2 ^ (-1074 : ℤ)
      else (2 ^ 52 + fraction : ℚ) * 2 ^ (biased - 1075 : ℤ) := by
  have hexponent := toNat_biased hword hbiased hfraction
  have hlow := toNat_fraction hword hfraction
  have hzero : (x.bits >>> 52) &&& 0x7ff = 0 ↔ biased = 0 := by
    rw [← UInt64.toNat_inj, hexponent]
    rfl
  simp only [expansion, Exact.value_mul, Exact.value_power_two, Exact.value_ofInt, hzero]
  split
  · rw [hlow]
    rfl
  · rw [toNat_or_leadingBit hlow hfraction, hexponent]
    push_cast
    rfl

/-- The two fields of a rank, and its magnitude by them. -/
theorem value_fields (biased : ℕ) (hfraction : fraction < 2 ^ 52) :
    BinaryFormat.double.value (biased * 2 ^ 52 + fraction) =
      if biased = 0 then (fraction : ℚ) * 2 ^ (-1074 : ℤ)
      else (2 ^ 52 + fraction : ℚ) * 2 ^ (biased - 1075 : ℤ) := by
  have hscale : (BinaryFormat.double.scale : ℚ) = 2 ^ (1074 : ℤ) := by
    rw [BinaryFormat.scale, Nat.pow_eq, Nat.cast_pow]
    rfl
  cases biased with
  | zero =>
    have hunits := BinaryFormat.double.units_of_le (hfraction.le.trans (by decide))
    rw [Nat.zero_mul, Nat.zero_add, BinaryFormat.value, hunits, hscale, if_pos rfl, zpow_neg,
      div_eq_mul_inv]
  | succ shift =>
    have hbinade : BinaryFormat.double.binade = 2 ^ 52 := rfl
    have hunits := BinaryFormat.double.units_block shift (k := 2 ^ 52 + fraction)
      (Or.inr (by omega)) (by omega)
    have hrank : (shift + 1) * 2 ^ 52 + fraction =
        shift * BinaryFormat.double.binade + (2 ^ 52 + fraction) := by
      rw [hbinade]
      ring
    rw [hrank, BinaryFormat.value, hunits, hscale, if_neg (by omega)]
    rw [Nat.cast_mul, Nat.cast_add, Nat.cast_pow, Nat.cast_pow, Nat.cast_ofNat, mul_div_assoc,
      ← zpow_natCast 2 shift, ← zpow_sub₀ (by norm_num)]
    congr 2
    omega

/-- The expansion is the number itself. -/
theorem value_expansion_finite (rank : Fin BinaryFormat.double.ranks) :
    (finite false rank : Double).expansion.value = BinaryFormat.double.value rank := by
  have hfraction : rank.val % 2 ^ 52 < 2 ^ 52 := Nat.mod_lt _ (by decide)
  have hbiased : rank.val / 2 ^ 52 < 2 ^ 11 := by
    have hranks : BinaryFormat.double.ranks = 2047 * 2 ^ 52 := by decide
    have hlt := rank.isLt
    omega
  have hsplit : rank.val = rank.val / 2 ^ 52 * 2 ^ 52 + rank.val % 2 ^ 52 :=
    (Nat.div_add_mod' _ _).symm
  have hword : (finite false rank : Double).bits.toNat =
      rank.val / 2 ^ 52 * 2 ^ 52 + rank.val % 2 ^ 52 := by
    rw [← hsplit, toNat_bits]
    exact Nat.zero_add _
  rw [value_expansion hword hbiased hfraction, ← value_fields _ hfraction, ← hsplit]

end Binary

/-- The expansion of a double that is not below zero is exact, and so are the powers it is made
of. -/
theorem expansion_power_exact :
    (∀ (base : Exact) (exponent : ℕ), (base.power exponent).value = base.value ^ exponent) ∧
    ∀ (x : Double) (biased fraction : ℕ), x.isFinite → x.isNegative = false →
      x.bits.toNat = biased * 2 ^ 52 + fraction → fraction < 2 ^ 52 →
      x.expansion.value =
          (if biased = 0 then (fraction : ℚ) * 2 ^ (-1074 : ℤ)
          else (2 ^ 52 + fraction : ℚ) * 2 ^ (biased - 1075 : ℤ)) ∧
        x.expansion.value = BinaryFormat.double.value x.magnitude := by
  refine ⟨Exact.value_power, fun x biased fraction hx hsign hword hfraction => ?_⟩
  have hlt := Binary.magnitude_lt_signBit x
  have hmagnitude := Binary.toNat_bits x
  rw [hsign, if_neg Bool.false_ne_true, hword] at hmagnitude
  constructor
  · exact Binary.value_expansion hword (by omega) hfraction
  · cases x with
    | nan => contradiction
    | infinite => contradiction
    | finite negative rank =>
      obtain rfl : negative = false := hsign
      exact Binary.value_expansion_finite rank

/-- The least double has no leading bit; and every number has one as its power zero, zero too. -/
theorem expansion_power_exact_least :
    let x : Double := .finite false ⟨1, by decide⟩
    x.isFinite ∧ x.isNegative = false ∧ x.bits.toNat = 0 * 2 ^ 52 + 1 ∧
    x.expansion.value = 2 ^ (-1074 : ℤ) ∧ (Exact.zero.power 0).value = 1 := by
  intro x
  have hword : x.bits.toNat = 0 * 2 ^ 52 + 1 := by decide +kernel
  obtain ⟨hpower, hexpansion⟩ := expansion_power_exact
  have hleast := (hexpansion x 0 1 rfl rfl hword (by decide)).1
  rw [if_pos rfl, Nat.cast_one, one_mul] at hleast
  exact ⟨rfl, rfl, hword, hleast, (hpower .zero 0).trans (pow_zero _)⟩

end Reckoner
