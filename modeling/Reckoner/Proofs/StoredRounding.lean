import Reckoner.Proofs.DoubleRoundTrip
import Reckoner.Proofs.ShortestDigits
import Reckoner.Proofs.WholeOrder

namespace Reckoner

namespace BinaryFormat

variable {f : BinaryFormat} {rank : ℕ} {m : Magnitude}

/-- A number with as few places compares with a magnitude as it does with the shortest digits, if it
is not these. -/
theorem compare_value (hrank : rank ≠ 0) (hexponent : (f.shortest rank).exponent ≤ m.exponent)
    (hne : m.value ≠ (f.shortest rank).value) :
    compare m.value (f.value rank) = compare m.value (f.shortest rank).value := by
  rcases lt_or_gt_of_ne hne with hlt | hgt
  · have hvalue : m.value < f.value rank := by
      by_contra hle
      have hnear := (f.shortest_isShortest hrank).abs_le hexponent (isNearestRank_of_between
        ((min_le_left _ _).trans (not_lt.mp hle)) (hlt.le.trans (le_max_right _ _)))
      rw [abs_of_nonneg (by linarith), abs_of_nonneg (by linarith)] at hnear
      linarith
    rw [compare_lt_iff_lt.mpr hlt, compare_lt_iff_lt.mpr hvalue]
  · have hvalue : f.value rank < m.value := by
      by_contra hle
      have hnear := (f.shortest_isShortest hrank).abs_le hexponent (isNearestRank_of_between
        ((min_le_right _ _).trans hgt.le) ((not_lt.mp hle).trans (le_max_left _ _)))
      rw [abs_of_nonpos (by linarith), abs_of_nonpos (by linarith)] at hnear
      linarith
    rw [compare_gt_iff_gt.mpr hgt, compare_gt_iff_gt.mpr hvalue]

end BinaryFormat

namespace Numeral

variable {n : Numeral} {x : ℚ} {places : ℕ}

/-- What a number has to know of the one that it stands for, so that dropping its digits rounds that
one: on which side of it each middle between two multiples lies. -/
structure Decides (n : Numeral) (x : ℚ) (places : ℕ) : Prop where
  nonneg : 0 ≤ x
  source : n.source = compare x n.magnitude.value
  middle : ∀ steps : ℕ, (steps + 1 / 2 : ℚ) * 10 ^ (-places : ℤ) ≠ n.magnitude.value →
    compare ((steps + 1 / 2 : ℚ) * 10 ^ (-places : ℤ)) x =
      compare ((steps + 1 / 2 : ℚ) * 10 ^ (-places : ℤ)) n.magnitude.value

/-- The sides of a middle, in steps of the last place that is kept. -/
theorem Decides.side (h : n.Decides x places) (steps : ℕ) :
    ((steps + 1 / 2 : ℚ) < n.magnitude.value / 10 ^ (-places : ℤ) →
      (steps + 1 / 2 : ℚ) < x / 10 ^ (-places : ℤ)) ∧
    (n.magnitude.value / 10 ^ (-places : ℤ) < (steps + 1 / 2 : ℚ) →
      x / 10 ^ (-places : ℤ) < (steps + 1 / 2 : ℚ)) := by
  have hstep := ten_zpow_pos (-places)
  rw [lt_div_iff₀ hstep, lt_div_iff₀ hstep, div_lt_iff₀ hstep, div_lt_iff₀ hstep]
  constructor
  · intro hlt
    have hsame := h.middle steps hlt.ne
    rw [compare_lt_iff_lt.mpr hlt] at hsame
    exact compare_lt_iff_lt.mp hsame
  · intro hgt
    have hsame := h.middle steps hgt.ne'
    rw [compare_gt_iff_gt.mpr hgt] at hsame
    exact compare_gt_iff_gt.mp hsame

/-- What lies within a step around a middle that is next to a number is not far from it. -/
theorem Decides.bounds (h : n.Decides x places) (steps : ℕ)
    (hlow : steps ≤ n.magnitude.value / 10 ^ (-places : ℤ))
    (hhigh : n.magnitude.value / 10 ^ (-places : ℤ) < steps + 1) :
    (steps - 1 / 2 : ℚ) < x / 10 ^ (-places : ℤ) ∧
      x / 10 ^ (-places : ℤ) < (steps + 3 / 2 : ℚ) := by
  constructor
  · cases steps with
    | zero =>
      have hnonneg := div_nonneg h.nonneg (ten_zpow_pos (-places)).le
      push_cast
      linarith
    | succ steps =>
      push_cast at hlow ⊢
      have hside := (h.side steps).1 (by linarith)
      linarith
  · have hside := (h.side (steps + 1)).2 (by push_cast; linarith)
    push_cast at hside
    linarith

/-- A number is rounded as the one that it stands for. -/
theorem Decides.magnitude_round (h : n.Decides x places)
    (hdropped : 0 < -n.magnitude.exponent - places) :
    (n.round places).magnitude.value = roundedTo (-places) x := by
  have hstep := ten_zpow_pos (-places)
  have hden : 0 < 10 ^ (-n.magnitude.exponent - places).toNat := Nat.pow_pos (by decide)
  have hvalue := magnitude_div_step n.magnitude places hdropped.le
  have hresult (k : ℕ) (hk : IsHalfEven (x / 10 ^ (-places : ℤ)) k) :
      (k : ℚ) * 10 ^ (-places : ℤ) = roundedTo (-places) x := by
    rw [roundedTo, halfEven_eq_iff.mpr hk, Int.cast_natCast]
  rw [magnitude_round_of_lt hdropped rfl, Magnitude.value_strip, Magnitude.value]
  unfold Digits.goesUp
  generalize 10 ^ (-n.magnitude.exponent - places).toNat = den at hden hvalue ⊢
  have hdenQ : (0 : ℚ) < den := by exact_mod_cast hden
  have hrest := Nat.mod_lt n.magnitude.coefficient hden
  rw [ratio_split _ hden] at hvalue
  generalize n.magnitude.coefficient / den = steps at hvalue ⊢
  generalize n.magnitude.coefficient % den = rest at hvalue hrest ⊢
  have hnonneg : 0 ≤ (rest : ℚ) / den := by positivity
  have hone : (rest : ℚ) / den < 1 := by
    rw [div_lt_one hdenQ]
    exact_mod_cast hrest
  obtain ⟨hlow, hhigh⟩ := h.bounds steps (by linarith) (by linarith)
  have hstay (hbelow : x / 10 ^ (-places : ℤ) < steps + 1 / 2) :=
    hresult (steps + Bool.toNat false)
      (isHalfEven_of_lt (by simpa using hlow) (by simpa using hbelow))
  have hnext (habove : steps + 1 / 2 < x / 10 ^ (-places : ℤ)) :=
    hresult (steps + Bool.toNat true) (isHalfEven_of_lt
      (by rw [Bool.toNat_true]; push_cast; linarith) (by rw [Bool.toNat_true]; push_cast; linarith))
  rcases lt_trichotomy (2 * rest) den with hless | htie | hmore
  · have hhalf : (rest : ℚ) / den < 1 / 2 := by
      rw [div_lt_div_iff₀ hdenQ two_pos]
      exact_mod_cast (by omega : rest * 2 < 1 * den)
    simp only [Nat.compare_eq_lt.mpr hless]
    exact hstay ((h.side steps).2 (by linarith))
  · have hhalf : (rest : ℚ) / den = 1 / 2 := by
      rw [div_eq_div_iff hdenQ.ne' two_ne_zero]
      exact_mod_cast (by omega : rest * 2 = 1 * den)
    have hcompare := h.source
    simp only [Nat.compare_eq_eq.mpr htie]
    rcases lt_trichotomy x n.magnitude.value with hx | hx | hx
    · have hbelow := div_lt_div_of_pos_right hx hstep
      simp only [hcompare, compare_lt_iff_lt.mpr hx]
      exact hstay (by linarith)
    · have hmiddle : x / 10 ^ (-places : ℤ) = steps + 1 / 2 := by rw [hx, hvalue, hhalf]
      simp only [hcompare, compare_eq_iff_eq.mpr hx]
      exact hresult _ (isHalfEven_of_middle hmiddle)
    · have habove := div_lt_div_of_pos_right hx hstep
      simp only [hcompare, compare_gt_iff_gt.mpr hx]
      exact hnext (by linarith)
  · have hhalf : 1 / 2 < (rest : ℚ) / den := by
      rw [div_lt_div_iff₀ two_pos hdenQ]
      exact_mod_cast (by omega : 1 * den < rest * 2)
    simp only [Nat.compare_eq_gt.mpr hmore]
    exact hnext ((h.side steps).1 (by linarith))

/-- The digits of a double decide for the number that it stores. -/
theorem decides_ofRank {negative : Bool} {rank : Fin BinaryFormat.double.ranks}
    (hn : ofRank? negative rank = some n) (hplaces : 0 < -n.magnitude.exponent - places) :
    n.Decides (BinaryFormat.double.value rank) places := by
  obtain ⟨n', hn', -, hmagnitude, hsource⟩ := exists_ofRank? negative rank
  obtain rfl := Option.some.inj (hn'.symm.trans hn)
  rw [hmagnitude] at hplaces
  have hrank : rank.val ≠ 0 := by
    intro hzero
    rw [hzero, BinaryFormat.shortest, if_pos rfl] at hplaces
    dsimp only at hplaces
    omega
  constructor
  · exact BinaryFormat.double.value_nonneg rank
  · rw [hsource, hmagnitude]
  · rw [hmagnitude]
    intro steps hne
    have hmiddle : (steps + 1 / 2 : ℚ) * 10 ^ (-places : ℤ) =
        (Magnitude.mk (10 * steps + 5) (-places - 1)).value := by
      rw [Magnitude.value, zpow_sub_one₀ (by norm_num)]
      push_cast
      ring
    rw [hmiddle] at hne ⊢
    refine BinaryFormat.compare_value hrank ?_ hne
    dsimp only at hplaces ⊢
    omega

/-- A double is rounded by the number that it stores. Its shortest digits are on the same side of
every middle, and where they are the middle themselves the stored number settles it. -/
theorem round_stored (negative : Bool) (rank : Fin BinaryFormat.double.ranks) (places : ℕ)
    (h : places < (Binary.finite negative rank : Double).places) :
    ∃ n, ofRank? negative rank = some n ∧
      (n.round places).value =
        roundedTo (-places) (Binary.finite negative rank : Double).stored := by
  obtain ⟨n, hn, hsign, hmagnitude, -⟩ := exists_ofRank? negative rank
  rw [Binary.places_finite, ← hmagnitude] at h
  have hdropped : 0 < -n.magnitude.exponent - places := by omega
  refine ⟨n, hn, ?_⟩
  rw [value, negative_round, (decides_ofRank hn hdropped).magnitude_round hdropped, hsign,
    Binary.stored]
  cases negative with
  | false => rfl
  | true => exact (roundedTo_neg _ _).symm

/-- The text of the least double ends in a five, which is a middle; the number is below it. -/
theorem round_stored_least :
    323 < (Binary.finite false ⟨1, by decide⟩ : Double).places ∧
      ∃ n, ofRank? false ⟨1, by decide⟩ = some n ∧ n.magnitude = ⟨5, -324⟩ ∧
        (n.round 323).value = 0 := by
  have hplaces : 323 < (Binary.finite false ⟨1, by decide⟩ : Double).places := by
    rw [Binary.places_finite, BinaryFormat.shortest_one]
    decide
  obtain ⟨n, hn, hround⟩ := round_stored false ⟨1, by decide⟩ 323 hplaces
  refine ⟨hplaces, n, hn, ?_, ?_⟩
  · obtain ⟨n', hn', -, hmagnitude, -⟩ := exists_ofRank? false ⟨1, by decide⟩
    rw [Option.some.inj (hn.symm.trans hn'), hmagnitude]
    exact BinaryFormat.shortest_one
  · have hsmall : BinaryFormat.double.value 1 / 10 ^ (-(323 : ℕ) : ℤ) < 1 / 2 := by
      have hsize : 10 ^ 323 * 2 < 1 * BinaryFormat.double.scale := by decide +kernel
      have hscale : (0 : ℚ) < BinaryFormat.double.scale := by
        exact_mod_cast BinaryFormat.double.scale_pos
      rw [BinaryFormat.value_one, zpow_neg, zpow_natCast, div_inv_eq_mul, one_div_mul_eq_div,
        div_lt_div_iff₀ hscale two_pos]
      exact_mod_cast hsize
    have hnonneg : 0 ≤ BinaryFormat.double.value 1 / 10 ^ (-(323 : ℕ) : ℤ) := by
      exact div_nonneg (BinaryFormat.double.value_nonneg 1) (ten_zpow_pos _).le
    have hzero (x : ℚ) (hlow : 0 ≤ x) (hhigh : x < 1 / 2) : halfEven x = 0 :=
      halfEven_eq_iff.mpr (isHalfEven_of_lt (by push_cast; linarith) (by push_cast; linarith))
    rw [hround, roundedTo]
    change (halfEven (BinaryFormat.double.value 1 / 10 ^ (-(323 : ℕ) : ℤ)) : ℚ) * _ = 0
    rw [hzero _ hnonneg hsmall, Int.cast_zero, zero_mul]

end Numeral

end Reckoner
