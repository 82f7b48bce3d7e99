import Mathlib.Data.Nat.Prime.Basic
import Reckoner.Evaluation.Mean
import Reckoner.Proofs.Middles
import Reckoner.Proofs.Reciprocal
import Reckoner.Proofs.WrappedTotals

namespace Reckoner

open BinaryFormat (double)

/-- What means of so many decimals are like: totals with the places of a decimal are divided, and
no mean is beyond all decimals. -/
structure IsMean (count : ℕ) (q : ℚ) : Prop where
  places : ∃ total : ℤ, q * (10 ^ 28 * count : ℕ) = total
  range : |q| ≤ 2 ^ 96

variable {count low : ℕ} {q : ℚ}

theorem IsMean.exists_total (h : IsMean count q) :
    ∃ total : ℕ, |q| * (10 ^ 28 * count : ℕ) = total := by
  obtain ⟨total, htotal⟩ := h.places
  refine ⟨total.natAbs, ?_⟩
  rw [Nat.cast_natAbs, Int.cast_abs, ← htotal, abs_mul, Nat.abs_cast]

/-- A mean that is a middle of doubles has few digits: the power of two under it divides the count
and the places of the total. -/
theorem IsMean.exists_digits (h : IsMean count q) (hpos : 0 < count) (hcount : count < 2 ^ 63)
    (hmiddle : |q| = double.middle low) :
    ∃ digits places : ℕ, digits < 10 ^ 100 ∧ |q| = digits * 10 ^ (-places : ℤ) := by
  obtain ⟨total, htotal⟩ := h.exists_total
  obtain ⟨num, places, hnum, hodd⟩ := double.exists_middle_eq low
  rw [← hmiddle] at hnum
  rcases hodd with rfl | ⟨hodd, hsize⟩
  · rw [pow_zero, div_one] at hnum
    have hrange := h.range
    rw [hnum] at hrange
    have hwhole : num ≤ 2 ^ 96 := by exact_mod_cast hrange
    exact ⟨num, 0, hwhole.trans_lt (by norm_num), by simpa using hnum⟩
  · have hcross : num * (10 ^ 28 * count) = total * 2 ^ places := by
      rw [hnum, div_mul_eq_mul_div, div_eq_iff (by positivity)] at htotal
      exact_mod_cast htotal
    have hdvd : 2 ^ places ∣ 2 ^ 28 * count := by
      have hnum : Nat.Coprime (2 ^ places) num :=
        (Nat.odd_iff.mpr hodd).coprime_two_left.pow_left _
      have hfive : Nat.Coprime (2 ^ places) (5 ^ 28) := Nat.Coprime.pow _ _ (by decide)
      have hmul : 2 ^ places ∣ num * (10 ^ 28 * count) := hcross ▸ Nat.dvd_mul_left _ _
      have hten := hnum.dvd_of_dvd_mul_left hmul
      rw [show 10 ^ 28 * count = 5 ^ 28 * (2 ^ 28 * count) by ring] at hten
      exact hfive.dvd_of_dvd_mul_left hten
    have hplaces : places < 91 := by
      rw [← Nat.pow_lt_pow_iff_right (show 1 < 2 by decide)]
      have hle := Nat.le_of_dvd (by omega) hdvd
      omega
    refine ⟨num * 5 ^ places, places, ?_, ?_⟩
    · have hbinade : 4 * double.binade = 2 ^ 54 := by decide
      rw [hbinade] at hsize
      calc num * 5 ^ places ≤ 2 ^ 54 * 5 ^ 90 :=
            Nat.mul_le_mul hsize.le (Nat.pow_le_pow_right (by decide) (by omega))
        _ < 10 ^ 100 := by norm_num
    · rw [hnum, zpow_neg, zpow_natCast, show (10 : ℚ) = 2 * 5 by norm_num, mul_pow]
      push_cast
      field_simp

/-- A mean that is not a middle of doubles is farther from it than what the digits of a quotient
leave out. -/
theorem IsMean.far (h : IsMean count q) (hq : q ≠ 0) (hpos : 0 < count) (hcount : count < 2 ^ 63)
    (hmiddle : |q| ≠ double.middle low) :
    precisionError * |q| < |(double.middle low - |q|)| := by
  obtain ⟨total, htotal⟩ := h.exists_total
  obtain ⟨num, places, hnum, hodd⟩ := double.exists_middle_eq low
  have habs : 0 < |q| := abs_pos.mpr hq
  have hden : (0 : ℚ) < (10 ^ 28 * count : ℕ) := by positivity
  have hpow : (0 : ℚ) < 2 ^ places := by positivity
  rcases le_or_gt (2 * double.middle low) |q| with hfar | hnear
  · have herror := mul_lt_mul_of_pos_right precisionError_lt habs
    have hdist := neg_abs_le (double.middle low - |q|)
    linarith
  · -- in steps of both denominators the two are at least one apart
    have hsteps : (1 : ℚ) ≤ |(double.middle low - |q|)| * ((10 ^ 28 * count : ℕ) * 2 ^ places) := by
      have hcross : (double.middle low - |q|) * ((10 ^ 28 * count : ℕ) * 2 ^ places) =
          ((num * (10 ^ 28 * count) - total * 2 ^ places : ℤ) : ℚ) := by
        rw [sub_mul, hnum, ← mul_assoc |q|, htotal]
        push_cast
        field_simp
      have hne : (num * (10 ^ 28 * count) - total * 2 ^ places : ℤ) ≠ 0 := by
        intro hzero
        rw [hzero, Int.cast_zero, mul_eq_zero_iff_right (by positivity), sub_eq_zero] at hcross
        exact hmiddle hcross.symm
      rw [← abs_of_pos (mul_pos hden hpow), ← abs_mul, hcross]
      exact_mod_cast Int.one_le_abs hne
    have hsize : |q| * 2 ^ places ≤ 2 ^ 96 := by
      rcases hodd with rfl | ⟨-, hsmall⟩
      · simpa using h.range
      · have hbinade : 4 * double.binade = 2 ^ 54 := by decide
        rw [hbinade] at hsmall
        have hsmall : (num : ℚ) < 2 ^ 54 := by exact_mod_cast hsmall
        rw [hnum, ← mul_div_assoc, lt_div_iff₀ hpow] at hnear
        linarith
    have hdenSize : ((10 ^ 28 * count : ℕ) : ℚ) ≤ 10 ^ 28 * 2 ^ 63 := by
      exact_mod_cast Nat.mul_le_mul_left _ hcount.le
    by_contra hle
    have hone : (1 : ℚ) < 1 := by
      calc (1 : ℚ) ≤ |(double.middle low - |q|)| * ((10 ^ 28 * count : ℕ) * 2 ^ places) := hsteps
        _ ≤ precisionError * |q| * ((10 ^ 28 * count : ℕ) * 2 ^ places) :=
          mul_le_mul_of_nonneg_right (not_lt.mp hle) (mul_pos hden hpow).le
        _ = precisionError * ((10 ^ 28 * count : ℕ) * (|q| * 2 ^ places)) := by ring
        _ ≤ precisionError * (10 ^ 28 * 2 ^ 63 * 2 ^ 96) :=
          mul_le_mul_of_nonneg_left (mul_le_mul hdenSize hsize (by positivity) (by positivity))
            precisionError_pos.le
        _ < 1 := by norm_num [precisionError]
    exact lt_irrefl _ hone

/-- The nearest double of a rounded mean is that of the mean. -/
theorem IsMean.toBinary_div {total : Exact} (h : IsMean count (total.value / count))
    (hpos : 0 < count) (hcount : count < 2 ^ 63) :
    ((total.div (.ofInt count)).toBinary : Double).IsNearest (total.value / count) := by
  have hnumber : (Exact.ofInt count).value = count := by rw [Exact.value_ofInt, Int.cast_natCast]
  have hdivisor : (Exact.ofInt count).value ≠ 0 := by
    rw [hnumber]
    exact_mod_cast hpos.ne'
  have hnearest := (total.div (.ofInt count)).toBinary_isNearest (f := .double)
  by_cases htotal : total.value = 0
  · rwa [Exact.value_div_of_zero htotal hdivisor, ← zero_div (count : ℚ), ← htotal] at hnearest
  · have hclose := Exact.abs_value_div_sub_le htotal hdivisor
    rw [hnumber] at hclose
    have hq : total.value / count ≠ 0 := div_ne_zero htotal (by exact_mod_cast hpos.ne')
    have hsmall : precisionError * |total.value / count| < |total.value / count| := by
      have habs := abs_pos.mpr hq
      have herror := mul_lt_mul_of_pos_right precisionError_lt habs
      linarith
    obtain ⟨-, hnegative⟩ := sign_of_near (hclose.trans_lt hsmall)
    rw [Binary.IsNearest, decide_eq_decide.mpr hnegative] at hnearest
    refine hnearest.of_sides (abs_nonneg _) fun low => ?_
    by_cases hmiddle : |total.value / count| = double.middle low
    · obtain ⟨digits, places, hdigits, hvalue⟩ := h.exists_digits hpos hcount hmiddle
      rw [← hnumber] at hvalue ⊢
      rw [Exact.value_div_of_digits htotal hdivisor hdigits hvalue]
    · exact compare_of_near (((abs_abs_sub_abs_le _ _).trans hclose).trans_lt
        (h.far hq hpos hcount hmiddle))

namespace Value

theorem bounds_of_number? {v : Value} (h : v.number? = some q) :
    (∃ total : ℤ, q * 10 ^ 28 = total) ∧ |q| ≤ 2 ^ 96 := by
  obtain ⟨scale, m, hscale, hm, rfl⟩ :=
    Decimal.exists_value_eq_iff.mp (exists_decimal_of_number? h)
  have hpower : (1 : ℚ) ≤ 10 ^ scale := one_le_pow₀ (by norm_num)
  rw [zpow_neg, zpow_natCast, ← div_eq_mul_inv]
  constructor
  · obtain ⟨more, hmore⟩ := Nat.exists_eq_add_of_le hscale
    refine ⟨m * 10 ^ more, ?_⟩
    rw [hmore, pow_add]
    push_cast
    field_simp
  · have hm : |(m : ℚ)| ≤ 2 ^ 96 := by exact_mod_cast hm.le
    rw [abs_div, abs_of_pos (by positivity : (0 : ℚ) < 10 ^ scale), div_le_iff₀ (by positivity)]
    exact hm.trans (le_mul_of_one_le_right (by positivity) hpower)

end Value

/-- A total has the places of its numbers, and they share it. -/
theorem bounds_sum {xs : List ℚ} (h : ∀ x ∈ xs, (∃ total : ℤ, x * 10 ^ 28 = total) ∧ |x| ≤ 2 ^ 96) :
    (∃ total : ℤ, xs.sum * 10 ^ 28 = total) ∧ |xs.sum| ≤ xs.length * 2 ^ 96 := by
  induction xs with
  | nil => exact ⟨⟨0, by simp⟩, by simp⟩
  | cons x xs ih =>
    obtain ⟨⟨first, hfirst⟩, hx⟩ := h x List.mem_cons_self
    obtain ⟨⟨rest, hrest⟩, hxs⟩ := ih fun y hy => h y (List.mem_cons_of_mem _ hy)
    rw [List.sum_cons, List.length_cons]
    refine ⟨⟨first + rest, by rw [add_mul, hfirst, hrest, Int.cast_add]⟩, ?_⟩
    calc |x + xs.sum| ≤ |x| + |xs.sum| := abs_add_le _ _
      _ ≤ 2 ^ 96 + xs.length * 2 ^ 96 := add_le_add hx hxs
      _ = (xs.length + 1 : ℕ) * 2 ^ 96 := by push_cast; ring

variable {values : Value} {xs : List ℚ}

theorem isMean_of_numbers (h : values.leaves.map Value.number? = xs.map some) (hxs : xs ≠ []) :
    IsMean xs.length (xs.sum / xs.length) := by
  have hpos : (0 : ℚ) < xs.length := by exact_mod_cast List.length_pos_iff.mpr hxs
  have hbounds : ∀ x ∈ xs, (∃ total : ℤ, x * 10 ^ 28 = total) ∧ |x| ≤ 2 ^ 96 := by
    intro x hx
    obtain ⟨leaf, -, hleaf⟩ := List.mem_map.mp (h ▸ List.mem_map_of_mem hx)
    exact Value.bounds_of_number? hleaf
  obtain ⟨⟨total, htotal⟩, hrange⟩ := bounds_sum hbounds
  constructor
  · refine ⟨total, ?_⟩
    rw [← htotal, Nat.cast_mul, Nat.cast_pow, Nat.cast_ofNat, mul_comm (10 ^ 28 : ℚ), ← mul_assoc,
      div_mul_cancel₀ _ hpos.ne']
  · rwa [abs_div, Nat.abs_cast, div_le_iff₀ hpos, mul_comm (2 ^ 96 : ℚ)]

/-- Leaves that hold numbers can be added up, to the sum of these. -/
theorem Combiner.add_of_numbers (h : values.leaves.map Value.number? = xs.map some) :
    (∀ leaf ∈ values.leaves, Combiner.add.Accepts leaf) ∧
      Combiner.add.combined 0 values.leaves = xs.sum := by
  have hshown : ∀ leaf ∈ values.leaves,
      Combiner.add.Accepts leaf ∧ some leaf.shown = leaf.number? := by
    intro leaf hleaf
    obtain ⟨x, -, hx⟩ := List.mem_map.mp (h ▸ List.mem_map_of_mem (f := Value.number?) hleaf)
    obtain ⟨hnumeric, hfinite, hvalue⟩ := Value.shown_of_number? hx.symm
    exact ⟨⟨hnumeric, hfinite, by simp⟩, by rw [hvalue, hx]⟩
  refine ⟨fun leaf hleaf => (hshown leaf hleaf).1, ?_⟩
  have hvalues : values.leaves.map Value.shown = xs := by
    apply List.map_injective_iff.mpr (Option.some_injective ℚ)
    rw [← h, List.map_map]
    exact List.map_congr_left fun leaf hleaf => (hshown leaf hleaf).2
  rw [combined, hvalues, zero_add]

/-- What an arithmetic mean comes to once its leaves are folded. -/
theorem mean_arithmetic_of_accepts (name : String) (hleaves : values.leaves ≠ [])
    (haccepts : ∀ leaf ∈ values.leaves, Combiner.add.Accepts leaf) :
    ∃ total : Exact, total.value = Combiner.add.combined 0 values.leaves ∧
      ∀ args, args = [values] ∨ args = [values, .string "arithmetic"] → mean name args =
        .ok (.double (total.div (.ofInt values.leaves.length)).toBinary) := by
  obtain ⟨done, hrun, hcount, htotal⟩ := exists_run .zero name haccepts
  rw [Exact.value_zero] at htotal
  refine ⟨done.total, htotal, fun args hargs => ?_⟩
  have hsome : ¬values.leaves.length = 0 := by simpa using hleaves
  have hkind : meanKind name args[1]? = .ok .arithmetic ∧ args[0]? = some values := by
    rcases hargs with rfl | rfl <;> exact ⟨rfl, rfl⟩
  simp [mean, hkind, hrun, hcount, hsome, bind, Except.bind, pure, Except.pure]

/-- The arithmetic mean of numbers that are held exactly is the double nearest to the exact one,
although the quotient is rounded before. -/
theorem mean_arithmetic_nearest (name : String)
    (h : values.leaves.map Value.number? = xs.map some) (hxs : xs ≠ [])
    (hcount : xs.length < 2 ^ 63) :
    ∃ x : Double, x.IsNearest (xs.sum / xs.length) ∧ mean name [values] = .ok (.double x) ∧
      mean name [values, .string "arithmetic"] = .ok (.double x) := by
  have hlength : values.leaves.length = xs.length := by simpa using congrArg List.length h
  have hpos : 0 < xs.length := List.length_pos_iff.mpr hxs
  have hleaves : values.leaves ≠ [] := List.length_pos_iff.mp (hlength ▸ hpos)
  obtain ⟨haccepts, hsum⟩ := Combiner.add_of_numbers h
  obtain ⟨total, htotal, hmean⟩ := mean_arithmetic_of_accepts name hleaves haccepts
  have hmeanOf := isMean_of_numbers h hxs
  rw [hlength] at hmean
  rw [← hsum, ← htotal] at hmeanOf ⊢
  exact ⟨_, hmeanOf.toBinary_div hpos hcount, hmean _ (Or.inl rfl), hmean _ (Or.inr rfl)⟩

/-- The mean of these is half way between two doubles, and the even one is taken. -/
theorem mean_arithmetic_nearest_tie :
    let values := Value.collection [.long 9007199254740992, .collection [.long 9007199254740994]]
    values.leaves.map Value.number? = [9007199254740992, 9007199254740994].map some ∧
      mean "mean" [values] = .ok (.double (Exact.ofInt 9007199254740992).toBinary) := by
  intro values
  have hnumbers : values.leaves.map Value.number? =
      [9007199254740992, 9007199254740994].map some := rfl
  obtain ⟨x, hx, hmean, -⟩ :=
    mean_arithmetic_nearest "mean" hnumbers (by simp) (by simp)
  have hmiddle : x.IsNearest (Exact.ofInt 9007199254740993).value := by
    rw [Exact.value_ofInt]
    norm_num at hx ⊢
    exact hx
  have heven : (Exact.ofInt 9007199254740993).toBinary =
      ((Exact.ofInt 9007199254740992).toBinary : Double) := by decide +kernel
  have hsame := hmiddle.unique (Exact.toBinary_isNearest _)
  exact ⟨hnumbers, by rw [hmean, hsame, heven]⟩

end Reckoner
