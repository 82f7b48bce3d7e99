import Mathlib.Algebra.BigOperators.Ring.List
import Mathlib.Data.Bool.AllAny
import Reckoner.Evaluation.Mean
import Reckoner.Proofs.Accumulation
import Reckoner.Proofs.Middles
import Reckoner.Proofs.Reciprocal
import Reckoner.Proofs.SignRecovery

namespace Reckoner

/-- The least double above zero. -/
def leastDouble : ℚ :=
  BinaryFormat.double.value 1

theorem leastDouble_pos : 0 < leastDouble := by
  have hunit := BinaryFormat.double.value_strictMono Nat.one_pos
  rwa [BinaryFormat.value_zero] at hunit

theorem leastDouble_le {scale : ℕ} (hscale : 0 < scale) (h : scale ≤ BinaryFormat.double.scale) :
    leastDouble ≤ 1 / scale := by
  rw [leastDouble, BinaryFormat.value_one]
  exact one_div_le_one_div_of_le (by exact_mod_cast hscale) (by exact_mod_cast h)

/-- What holds of the digits of all numbers but zero holds of what they show. -/
theorem Binary.le_abs_shown {f : BinaryFormat} {x : Binary f} {bound : ℚ} (hne : x.shown ≠ 0)
    (h : ∀ rank, rank ≠ 0 → bound ≤ (f.shortest rank).value) : bound ≤ |x.shown| := by
  cases x with
  | finite negative rank =>
    have habs : |(finite negative rank).shown| = (f.shortest rank).value := by
      have hnonneg := (f.shortest rank).value_nonneg
      cases negative <;> simpa [shown] using hnonneg
    rw [habs]
    refine h rank fun hzero => hne ?_
    rw [← abs_eq_zero, habs, hzero]
    simp [BinaryFormat.shortest, Magnitude.value]
  | _ => exact absurd rfl hne

/-- The least single is far above the least double. -/
theorem leastDouble_le_shortest_single {rank : ℕ} (hrank : rank ≠ 0) :
    3 / 4 * leastDouble ≤ (BinaryFormat.single.shortest rank).value := by
  have hmiddle := (BinaryFormat.single.shortest_isNearestRank rank).middle_le
    (Nat.pos_of_ne_zero hrank)
  have hscale : 2 * BinaryFormat.single.scale ≤ BinaryFormat.double.scale := by decide +kernel
  have hle := leastDouble_le (Nat.mul_pos two_pos BinaryFormat.single.scale_pos) hscale
  rw [BinaryFormat.value_zero, BinaryFormat.value_one] at hmiddle
  rw [Nat.cast_mul, Nat.cast_ofNat, mul_comm, ← div_div] at hle
  have hpos := leastDouble_pos
  linarith

theorem Decimal.leastDouble_le_abs {d : Decimal} (hne : d.value ≠ 0) :
    leastDouble ≤ |d.value| := by
  have hmantissa : (1 : ℚ) ≤ |(d.mantissa : ℚ)| := by
    rw [value, div_ne_zero_iff] at hne
    exact_mod_cast Int.one_le_abs (Int.cast_ne_zero.mp hne.1)
  have hscale : Nat.pow 10 28 ≤ BinaryFormat.double.scale := by decide +kernel
  have hle := leastDouble_le (Nat.pow_pos (by decide)) hscale
  have hpower : (10 : ℚ) ^ d.scale ≤ 10 ^ 28 := pow_le_pow_right₀ (by norm_num) d.scale_le
  rw [value, abs_div, abs_of_pos (show (0 : ℚ) < 10 ^ d.scale by positivity)]
  calc leastDouble ≤ 1 / (Nat.pow 10 28 : ℕ) := hle
    _ = 1 / 10 ^ 28 := by norm_num
    _ ≤ 1 / 10 ^ d.scale := one_div_le_one_div_of_le (by positivity) hpower
    _ ≤ |(d.mantissa : ℚ)| / 10 ^ d.scale :=
      div_le_div_of_nonneg_right hmantissa (by positivity)

/-- A finite number other than zero is not far below the least double. -/
theorem Value.le_abs_shown {v : Value} (hne : v.shown ≠ 0) : 3 / 4 * leastDouble ≤ |v.shown| := by
  have hpos := leastDouble_pos
  have hwhole {n : ℤ} (hn : (n : ℚ) ≠ 0) : 3 / 4 * leastDouble ≤ |(n : ℚ)| := by
    have hone : leastDouble ≤ 1 := BinaryFormat.double.value_one_le
    have hlarge : (1 : ℚ) ≤ |(n : ℚ)| := by
      exact_mod_cast Int.one_le_abs (Int.cast_ne_zero.mp hn)
    linarith
  cases v with
  | byte n => exact hwhole hne
  | short n => exact hwhole hne
  | integer n => exact hwhole hne
  | long n => exact hwhole hne
  | float x => exact Binary.le_abs_shown hne fun rank => leastDouble_le_shortest_single
  | double x => exact Binary.le_abs_shown hne fun rank => BinaryFormat.le_shortest
  | decimal d =>
    have hle : leastDouble ≤ |(Value.decimal d).shown| := Decimal.leastDouble_le_abs hne
    linarith
  | _ => exact absurd rfl hne

/-- Rounding each of some numbers moves their sum by a small part of what they come to without
signs. -/
theorem abs_sum_rounded_sub_le {xs : List ℚ} (h : ∀ x ∈ xs, x ≠ 0) :
    |(xs.map (roundedToDigits 100)).sum - xs.sum| ≤ precisionError * (xs.map abs).sum := by
  induction xs with
  | nil => simp
  | cons x xs ih =>
    have hfirst : |roundedToDigits 100 x - x| ≤ precisionError * |x| :=
      abs_roundedToDigits_sub_le 100 (h x List.mem_cons_self)
    have hrest := ih fun y hy => h y (List.mem_cons_of_mem _ hy)
    simp only [List.map_cons, List.sum_cons]
    calc |roundedToDigits 100 x + (xs.map (roundedToDigits 100)).sum - (x + xs.sum)|
        = |(roundedToDigits 100 x - x) + ((xs.map (roundedToDigits 100)).sum - xs.sum)| := by
          congr 1
          ring
      _ ≤ |roundedToDigits 100 x - x| + |(xs.map (roundedToDigits 100)).sum - xs.sum| :=
          abs_add_le _ _
      _ ≤ precisionError * |x| + precisionError * (xs.map abs).sum := add_le_add hfirst hrest
      _ = precisionError * (|x| + (xs.map abs).sum) := by ring

/-- A sum of rounded reciprocals is not so large that their mean could vanish. -/
theorem abs_sum_rounded_mul_le {xs : List ℚ} (hne : ∀ x ∈ xs, x ≠ 0)
    (hsmall : ∀ x ∈ xs, leastDouble * |x| ≤ 4 / 3) :
    |(xs.map (roundedToDigits 100)).sum| * leastDouble ≤ 7 / 5 * xs.length := by
  have hclose := abs_sum_rounded_sub_le hne
  have hsum : |xs.sum| ≤ (xs.map abs).sum := xs.le_sum_of_subadditive abs abs_zero.le abs_add_le
  have hrounded : |(xs.map (roundedToDigits 100)).sum| ≤
      (1 + precisionError) * (xs.map abs).sum := by
    have htriangle := abs_sub_abs_le_abs_sub (xs.map (roundedToDigits 100)).sum xs.sum
    linarith
  have hcount : leastDouble * (xs.map abs).sum ≤ 4 / 3 * xs.length := by
    have hterms := List.sum_le_card_nsmul (xs.map fun x => leastDouble * |x|) (4 / 3) (by
      simpa using hsmall)
    rwa [List.sum_map_mul_left, List.length_map, nsmul_eq_mul, mul_comm (xs.length : ℚ)] at hterms
  have hnonneg : (0 : ℚ) ≤ 4 / 3 * xs.length := by positivity
  have herror := precisionError_lt
  calc |(xs.map (roundedToDigits 100)).sum| * leastDouble
      ≤ (1 + precisionError) * (xs.map abs).sum * leastDouble :=
        mul_le_mul_of_nonneg_right hrounded leastDouble_pos.le
    _ = (1 + precisionError) * (leastDouble * (xs.map abs).sum) := by ring
    _ ≤ (1 + precisionError) * (4 / 3 * xs.length) :=
        mul_le_mul_of_nonneg_left hcount (by linarith [precisionError_pos])
    _ ≤ (1 + 1 / 100) * (4 / 3 * xs.length) := mul_le_mul_of_nonneg_right (by linarith) hnonneg
    _ ≤ 7 / 5 * xs.length := by linarith

/-- A count divided by a total has the sign of the total, which the nearest double keeps. -/
theorem hasSign_div_total {count : ℕ} {total : Exact} (hcount : count ≠ 0)
    (htotal : total.value ≠ 0) (hbound : |total.value| * leastDouble ≤ 7 / 5 * count) :
    (Value.double ((Exact.ofInt count).div total).toBinary).HasSign
      (decide (total.value < 0)) := by
  have hpositive : (0 : ℚ) < count := by exact_mod_cast Nat.pos_of_ne_zero hcount
  have habs : 0 < |total.value| := abs_pos.mpr htotal
  have hnumerator : (Exact.ofInt count).value = (count : ℚ) := by
    rw [Exact.value_ofInt, Int.cast_natCast]
  have hclose : |((Exact.ofInt count).div total).value - count / total.value| ≤
      precisionError * |count / total.value| := by
    rw [← hnumerator]
    exact Exact.abs_value_div_sub_le (by rw [hnumerator]; exact hpositive.ne') htotal
  have hfar : 5 / 7 * leastDouble ≤ |count / total.value| := by
    rw [abs_div, abs_of_pos hpositive, le_div_iff₀ habs]
    linarith
  have hunit := leastDouble_pos
  have herror : precisionError * |count / total.value| ≤ 1 / 100 * |count / total.value| :=
    mul_le_mul_of_nonneg_right precisionError_lt.le (abs_nonneg _)
  obtain ⟨-, hsign⟩ := sign_of_near (hclose.trans_lt (by linarith))
  have hnegative : (count : ℚ) / total.value < 0 ↔ total.value < 0 := by
    rw [div_neg_iff]
    simp [hpositive, hpositive.not_gt]
  have hlarge : leastDouble < 2 * |((Exact.ofInt count).div total).value| := by
    have htriangle := abs_sub_abs_le_abs_sub (count / total.value)
      ((Exact.ofInt count).div total).value
    rw [abs_sub_comm] at htriangle
    linarith
  have hresult := Value.hasSign_double
    (((Exact.ofInt count).div total).toBinary_isNearest (f := .double)) hlarge
  rwa [decide_eq_decide.mpr (hsign.trans hnegative)] at hresult

/-- The reciprocals of all leaves. -/
def Value.reciprocals (v : Value) : List ℚ :=
  v.leaves.map fun leaf => leaf.shown⁻¹

/-- The reciprocals of all leaves, each kept to 100 significant digits, added up. -/
def Value.reciprocalTotal (v : Value) : ℚ :=
  (v.reciprocals.map (roundedToDigits 100)).sum

variable {values : Value}

theorem Combiner.addReciprocal_accepts_iff {leaf : Value} :
    Combiner.addReciprocal.Accepts leaf ↔
      leaf.isNumeric ∧ leaf.IsFinite ∧ leaf.shown ≠ 0 := by
  simp [Combiner.Accepts]

theorem Combiner.combined_addReciprocal (values : Value) :
    Combiner.addReciprocal.combined 0 values.leaves = values.reciprocalTotal := by
  rw [Combiner.combined, zero_add, Value.reciprocalTotal, Value.reciprocals, List.map_map]
  rfl

/-- The reciprocal of a finite number is hardly larger than that of the least double. -/
theorem Value.reciprocals_bounds
    (hnumbers : ∀ leaf ∈ values.leaves, leaf.shown ≠ 0) :
    ∀ x ∈ values.reciprocals, x ≠ 0 ∧ leastDouble * |x| ≤ 4 / 3 := by
  intro x hx
  obtain ⟨leaf, hleaf, rfl⟩ := List.mem_map.mp hx
  have hzero := hnumbers leaf hleaf
  have hleast := Value.le_abs_shown hzero
  refine ⟨inv_ne_zero hzero, ?_⟩
  rw [abs_inv, ← div_eq_mul_inv, div_le_iff₀ (abs_pos.mpr hzero)]
  linarith

/-- What a harmonic mean comes to once its leaves are folded. -/
theorem mean_harmonic_of_accepts (name : String) (hleaves : values.leaves ≠ [])
    (haccepts : ∀ leaf ∈ values.leaves, Combiner.addReciprocal.Accepts leaf) :
    ∃ total : Exact, total.value = Combiner.addReciprocal.combined 0 values.leaves ∧
      mean name [values, .string "harmonic"] =
        if total.isZero then .error (.evaluation name .divisionByZero)
        else .ok (.double ((Exact.ofInt values.leaves.length).div total).toBinary) := by
  obtain ⟨done, hrun, hcount, htotal⟩ := exists_run .zero name haccepts
  rw [Exact.value_zero] at htotal
  refine ⟨done.total, htotal, ?_⟩
  have hkind : meanKind name (some (.string "harmonic")) = .ok .harmonic := rfl
  have hsome : ¬values.leaves.length = 0 := by simpa using hleaves
  simp [mean, hkind, hrun, hcount, hsome, bind, Except.bind, pure, Except.pure]

/-- The harmonic mean of numbers fails just if their reciprocals cancel out once each is rounded,
and has the sign of the rounded total else. That sign is the exact one if the reciprocals come to
more than what they lose by rounding, or lose nothing. -/
theorem mean_harmonic (name : String) (hleaves : values.leaves ≠ [])
    (hnumbers : ∀ leaf ∈ values.leaves,
      leaf.isNumeric ∧ leaf.IsFinite ∧ leaf.shown ≠ 0) :
    (mean name [values, .string "harmonic"] = .error (.evaluation name .divisionByZero) ↔
      values.reciprocalTotal = 0) ∧
    (values.reciprocalTotal ≠ 0 → ∃ x, mean name [values, .string "harmonic"] = .ok (.double x) ∧
      (Value.double x).HasSign (decide (values.reciprocalTotal < 0))) ∧
    (precisionError * (values.reciprocals.map abs).sum < |values.reciprocals.sum| →
      values.reciprocalTotal ≠ 0 ∧
        (values.reciprocalTotal < 0 ↔ values.reciprocals.sum < 0)) ∧
    ((∀ x ∈ values.reciprocals, roundedToDigits 100 x = x) →
      values.reciprocalTotal = values.reciprocals.sum) := by
  have hreciprocals := Value.reciprocals_bounds fun leaf hleaf => (hnumbers leaf hleaf).2.2
  have hne : ∀ x ∈ values.reciprocals, x ≠ 0 := fun x hx => (hreciprocals x hx).1
  have hbound := abs_sum_rounded_mul_le hne fun x hx => (hreciprocals x hx).2
  obtain ⟨total, htotal, hmean⟩ := mean_harmonic_of_accepts name hleaves
    fun leaf hleaf => Combiner.addReciprocal_accepts_iff.mpr (hnumbers leaf hleaf)
  rw [Combiner.combined_addReciprocal] at htotal
  have hcount : values.reciprocals.length = values.leaves.length := List.length_map _
  rw [hcount, ← Value.reciprocalTotal] at hbound
  have hzero : total.isZero = true ↔ values.reciprocalTotal = 0 := by
    rw [Exact.isZero_iff, htotal]
  rw [hmean]
  -- the first two are about the rounded total, the last two about what it has of the exact one
  refine ⟨?_, fun hsum => ?_, fun hmore => ?_, fun hkept => ?_⟩
  · rw [← hzero]
    split <;> simp [*]
  · rw [if_neg (hzero.not.mpr hsum)]
    refine ⟨_, rfl, ?_⟩
    rw [← htotal] at hsum hbound ⊢
    exact hasSign_div_total (by simpa using hleaves) hsum hbound
  · exact sign_of_near ((abs_sum_rounded_sub_le hne).trans_lt hmore)
  · rw [Value.reciprocalTotal, List.map_congr_left hkept, List.map_id']

theorem leaves_integers (numbers : List Int32) :
    (Value.collection (numbers.map .integer)).leaves = numbers.map .integer := by
  rw [Value.leaves]
  induction numbers with
  | nil => rfl
  | cons n rest ih =>
    rw [List.map_cons, Value.leaves.leavesOf, ih]
    rfl

/-- Whole numbers other than zero are among the leaves that have a harmonic mean. -/
theorem integers_invertible (numbers : List Int32) (h : ∀ n ∈ numbers, n.toInt ≠ 0) :
    ∀ leaf ∈ (Value.collection (numbers.map .integer)).leaves,
      leaf.isNumeric ∧ leaf.IsFinite ∧ leaf.shown ≠ 0 := by
  intro leaf hleaf
  rw [leaves_integers] at hleaf
  obtain ⟨n, hn, rfl⟩ := List.mem_map.mp hleaf
  refine ⟨rfl, trivial, ?_⟩
  exact Int.cast_ne_zero.mpr (h n hn)

theorem reciprocals_integers (numbers : List Int32) :
    (Value.collection (numbers.map .integer)).reciprocals =
      numbers.map fun n => (n.toInt : ℚ)⁻¹ := by
  rw [Value.reciprocals, leaves_integers, List.map_map]
  rfl

/-- Two and its opposite cancel out. -/
theorem mean_harmonic_opposite :
    let values := Value.collection ([2, -2].map .integer)
    (values.leaves ≠ [] ∧
      ∀ leaf ∈ values.leaves, leaf.isNumeric ∧ leaf.IsFinite ∧ leaf.shown ≠ 0) ∧
    mean "mean" [values, .string "harmonic"] = .error (.evaluation "mean" .divisionByZero) := by
  intro values
  have hleaves : values.leaves ≠ [] := List.cons_ne_nil _ _
  have hnumbers := integers_invertible [2, -2] (List.all_iff_forall_prop.mp (by decide))
  refine ⟨⟨hleaves, hnumbers⟩, (mean_harmonic "mean" hleaves hnumbers).1.mpr ?_⟩
  have hopposite : (-2 : Int32).toInt = -2 := rfl
  have htwo : (2 : Int32).toInt = 2 := rfl
  rw [Value.reciprocalTotal, reciprocals_integers]
  simp [hopposite, htwo, inv_neg, roundedToDigits_neg]

/-- Three thirds cancel out with an opposite one, but not once they are rounded. -/
theorem harmonic_cancellation_missed :
    let values := Value.collection ([3, 3, 3, -1].map .integer)
    (∀ leaf ∈ values.leaves, leaf.isNumeric ∧ leaf.IsFinite ∧ leaf.shown ≠ 0) ∧
    values.reciprocals.sum = 0 ∧
    ∃ x, mean "mean" [values, .string "harmonic"] = .ok (.double x) := by
  intro values
  have hleaves : values.leaves ≠ [] := List.cons_ne_nil _ _
  have hnumbers := integers_invertible [3, 3, 3, -1] (List.all_iff_forall_prop.mp (by decide))
  have hthree : (3 : Int32).toInt = 3 := rfl
  have hone : (-1 : Int32).toInt = -1 := rfl
  refine ⟨hnumbers, ?_, ?_⟩
  · rw [reciprocals_integers]
    norm_num [hthree, hone]
  · obtain ⟨total, htotal, hmean⟩ := mean_harmonic_of_accepts "mean" hleaves
      fun leaf hleaf => Combiner.addReciprocal_accepts_iff.mpr (hnumbers leaf hleaf)
    let third := (Exact.ofInt 3).inverse
    let rounded := third.add (third.add (third.add (Exact.ofInt (-1)).inverse))
    have hrounded : rounded.isZero = false := by decide +kernel
    have hinverse {n : ℤ} (hn : n ≠ 0) :
        (Exact.ofInt n).inverse.value = roundedToDigits 100 (n : ℚ)⁻¹ := by
      have hvalue := Exact.value_inverse (x := .ofInt n) (by simpa using hn)
      rwa [Exact.value_ofInt] at hvalue
    have hsame : total.value = rounded.value := by
      rw [htotal, Combiner.combined_addReciprocal, Value.reciprocalTotal, reciprocals_integers]
      simp [rounded, third, hinverse, hthree, hone]
    have hzero : ¬total.isZero = true := by
      rw [Exact.isZero_iff, hsame, ← Exact.isZero_iff, hrounded]
      exact Bool.false_ne_true
    rw [if_neg hzero] at hmean
    exact ⟨_, hmean⟩

end Reckoner
