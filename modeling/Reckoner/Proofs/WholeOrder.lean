import Reckoner.Proofs.NaturalOrder
import Reckoner.Proofs.ShortestText

namespace Reckoner

namespace BinaryFormat

variable {f : BinaryFormat} {rank : ℕ} {x : ℚ}

/-- What lies between a magnitude and its shortest digits is read as that magnitude. -/
theorem isNearestRank_of_between (hlow : min (f.value rank) (f.shortest rank).value ≤ x)
    (hhigh : x ≤ max (f.value rank) (f.shortest rank).value) : f.IsNearestRank x rank := by
  rcases le_total (f.value rank) (f.shortest rank).value with h | h
  · rw [min_eq_left h] at hlow
    rw [max_eq_right h] at hhigh
    exact (f.isNearestRank_value rank).of_le_of_le (f.shortest_isNearestRank rank) hlow hhigh
  · rw [min_eq_right h] at hlow
    rw [max_eq_left h] at hhigh
    exact (f.shortest_isNearestRank rank).of_le_of_le (f.isNearestRank_value rank) hlow hhigh

/-- A whole number that is read as a magnitude within the significand leaves that no other text. -/
theorem value_shortest_of_isNearestRank {whole : ℕ} (h : f.IsNearestRank whole rank)
    (hvalue : f.value rank ≤ (2 * f.binade : ℕ)) : (f.shortest rank).value = f.value rank := by
  rcases value_of_isNearestRank h with hwhole | hlarge
  · rw [hwhole]
    rw [hwhole, Nat.cast_le] at hvalue
    exact value_shortest_of_whole hwhole hvalue
  · rw [le_antisymm hvalue hlarge]
    exact value_shortest_of_whole (le_antisymm hvalue hlarge) (Nat.le_refl _)

end BinaryFormat

namespace Binary

variable {f : BinaryFormat}

/-- The number that a finite one stores. -/
def stored : Binary f → ℚ
  | finite negative rank => if negative then -f.value rank else f.value rank
  | _ => 0

/-- A number beyond two others compares with both in the same way. -/
theorem compare_beyond {n v t : ℚ} {negative : Bool}
    (h : (if negative then -n else n) < min v t ∨ max v t < if negative then -n else n) :
    compare n (if negative then -t else t) = compare n (if negative then -v else v) := by
  rw [lt_min_iff, max_lt_iff] at h
  cases negative
  case false =>
    simp only [Bool.false_eq_true, if_false] at h ⊢
    rcases h with ⟨hv, ht⟩ | ⟨hv, ht⟩
    · rw [compare_lt_iff_lt.mpr hv, compare_lt_iff_lt.mpr ht]
    · rw [compare_gt_iff_gt.mpr hv, compare_gt_iff_gt.mpr ht]
  case true =>
    simp only [if_true] at h ⊢
    rcases h with ⟨hv, ht⟩ | ⟨hv, ht⟩
    · rw [compare_gt_iff_gt.mpr (neg_lt.mp hv), compare_gt_iff_gt.mpr (neg_lt.mp ht)]
    · rw [compare_lt_iff_lt.mpr (lt_neg.mp hv), compare_lt_iff_lt.mpr (lt_neg.mp ht)]

/-- A whole number between a number other than zero and its shortest digits is read as that
number. -/
theorem isNearest_of_between {negative : Bool} {rank : Fin f.ranks} {n : ℤ} (hrank : rank.val ≠ 0)
    (hlow : min (f.value rank) (f.shortest rank).value ≤ (if negative then -n else n : ℤ))
    (hhigh : (if negative then -n else n : ℤ) ≤ max (f.value rank) (f.shortest rank).value) :
    (finite negative rank : Binary f).IsNearest n ∧ f.IsNearestRank n.natAbs rank := by
  have hnear := BinaryFormat.isNearestRank_of_between hlow hhigh
  have hvalue : 0 < f.value rank := by
    have hless := f.value_strictMono (Nat.pos_of_ne_zero hrank)
    rwa [BinaryFormat.value_zero] at hless
  have hpos : 0 < if negative then -n else n := by
    have hmin := (lt_min hvalue (BinaryFormat.value_shortest_pos hrank)).trans_le hlow
    exact_mod_cast hmin
  have hsize : (if negative then -n else n) = n.natAbs ∧ (n < 0 ↔ negative = true) := by
    cases negative
    · rw [if_neg Bool.false_ne_true] at hpos ⊢
      exact ⟨by omega, iff_of_false (by omega) Bool.false_ne_true⟩
    · rw [if_pos rfl] at hpos ⊢
      exact ⟨by omega, iff_of_true (by omega) rfl⟩
  rw [hsize.1, Int.cast_natCast] at hnear
  refine ⟨⟨?_, ?_⟩, hnear⟩
  · rw [Bool.eq_iff_iff, decide_eq_true_iff, ← hsize.2]
    exact Int.cast_lt_zero.symm
  · rwa [← Int.cast_abs, Int.abs_eq_natAbs, Int.cast_natCast]

theorem abs_stored (negative : Bool) (rank : Fin f.ranks) :
    |(finite negative rank : Binary f).stored| = f.value rank := by
  have hnonneg := f.value_nonneg rank
  rw [stored]
  split
  · rw [abs_neg, abs_of_nonneg hnonneg]
  · exact abs_of_nonneg hnonneg

/-- A whole number compares with what the text of a number shows as it does with the number itself,
unless it is read as that number, and this is past the whole significands. -/
theorem compare_shown (x : Binary f) (n : ℤ) :
    compare (n : ℚ) x.shown = compare (n : ℚ) x.stored ∨
      x.IsNearest n ∧ (2 * f.binade : ℕ) < |x.stored| := by
  cases x with
  | nan negative => exact Or.inl rfl
  | infinite negative => exact Or.inl rfl
  | finite negative rank =>
    rw [abs_stored, shown, stored]
    by_cases hrank : rank.val = 0
    · left
      rw [hrank, BinaryFormat.shortest, if_pos rfl, BinaryFormat.value_zero]
      simp [Magnitude.value]
    · by_cases hbetween :
          min (f.value rank) (f.shortest rank).value ≤ (if negative then -n else n : ℤ) ∧
            (if negative then -n else n : ℤ) ≤ max (f.value rank) (f.shortest rank).value
      · obtain ⟨hnearest, hread⟩ := isNearest_of_between hrank hbetween.1 hbetween.2
        rcases le_or_gt (f.value rank) (2 * f.binade : ℕ) with hle | hlarge
        · rw [BinaryFormat.value_shortest_of_isNearestRank hread hle]
          exact Or.inl rfl
        · exact Or.inr ⟨hnearest, hlarge⟩
      · left
        rw [not_and_or, not_le, not_le] at hbetween
        push_cast at hbetween
        exact compare_beyond hbetween

end Binary

namespace Value

/-- A value of either format. -/
def ofBinary : {f : BinaryFormat} → Binary f → Value
  | .single, x => .float x
  | .double, x => .double x

theorem ofBinary_finite {f : BinaryFormat} {x : Binary f} (h : x.isFinite) :
    (ofBinary x).isNumeric ∧ (ofBinary x).IsFinite ∧ (ofBinary x).shown = x.shown := by
  cases f <;> exact ⟨rfl, h, rfl⟩

theorem whole_finite {v : Value} {n : Int64} (h : v.whole? = some n) :
    v.isNumeric ∧ v.IsFinite ∧ v.shown = n.toInt := by
  obtain ⟨hregion, hshown⟩ := shown_of_whole h
  refine ⟨?_, region_eq_zero_iff.mp hregion, hshown⟩
  cases v <;> first | rfl | simp [whole?] at h

/-- A whole number compares with the decimal that a text shows. -/
theorem naturalOrder_shown {f : BinaryFormat} {v : Value} {n : Int64} {x : Binary f}
    (hv : v.whole? = some n) (hx : x.isFinite) :
    v.naturalOrder (.ofBinary x) = some (compare (n.toInt : ℚ) x.shown) := by
  obtain ⟨hnumeric, hfinite, hvalue⟩ := whole_finite hv
  obtain ⟨hnumeric', hfinite', hvalue'⟩ := ofBinary_finite hx
  rw [naturalOrder_of_finite hnumeric hnumeric' hfinite hfinite', hvalue, hvalue']

end Value

/-- A whole number compares with a floating point number as with the decimal that its shortest text
shows. That is the order of the two numbers themselves, unless the whole number is read as the other
one, and this is past the whole significands. -/
theorem naturalOrder_whole {f : BinaryFormat} {v : Value} {n : Int64} {x : Binary f}
    (hv : v.whole? = some n) (hx : x.isFinite) :
    v.naturalOrder (.ofBinary x) = some (compare (n.toInt : ℚ) x.shown) ∧
    (Value.ofBinary x).naturalOrder v = (v.naturalOrder (.ofBinary x)).map Ordering.swap ∧
    (v.naturalOrder (.ofBinary x) = some (compare (n.toInt : ℚ) x.stored) ∨
      x.IsNearest n.toInt ∧ 2 ^ (f.fractionBits + 1) < |x.stored|) := by
  have hbinade : 2 * f.binade = 2 ^ (f.fractionBits + 1) := (Nat.pow_succ' ..).symm
  refine ⟨Value.naturalOrder_shown hv hx, Value.naturalOrder_swap _ _, ?_⟩
  · rw [Value.naturalOrder_shown hv hx]
    refine (x.compare_shown n.toInt).imp (congrArg some) (And.imp_right fun hlarge => ?_)
    rw [hbinade] at hlarge
    exact_mod_cast hlarge

/-- One more than the last of the whole significands is after it, though it is read as that. -/
theorem naturalOrder_whole_successor :
    let n : Int64 := 9007199254740993
    let x : Double := .finite false ⟨1076 * 2 ^ 52, by decide⟩
    (Value.long n).whole? = some n ∧ x.isFinite ∧ x.stored = 9007199254740992 ∧
    (Value.long n).naturalOrder (.double x) = some .gt := by
  intro n x
  have hstored : x.stored = 9007199254740992 := BinaryFormat.double.value_top
  obtain ⟨-, -, horder⟩ := naturalOrder_whole (show (Value.long n).whole? = some n from rfl)
    (show x.isFinite = true from rfl)
  rw [hstored] at horder
  have hsize : ¬(2 : ℚ) ^ (BinaryFormat.double.fractionBits + 1) < |9007199254740992| := by
    norm_num [BinaryFormat.fractionBits]
  have hafter : compare ((n.toInt : ℤ) : ℚ) 9007199254740992 = .gt :=
    compare_gt_iff_gt.mpr (by norm_num [show n.toInt = 9007199254740993 from rfl])
  refine ⟨rfl, rfl, hstored, ?_⟩
  rw [← hafter]
  exact horder.resolve_right fun hread => hsize hread.2

/-- The double `2 ^ 60` is shown by sixteen digits and zeros, and so is after the whole number that
it is. -/
theorem equal_whole_before :
    let n : Int64 := 1152921504606846976
    let x : Double := .finite false ⟨1083 * 2 ^ 52, by decide⟩
    (Value.long n).whole? = some n ∧ x.isFinite ∧ x.stored = (n.toInt : ℚ) ∧
    (Value.long n).naturalOrder (.double x) = some .lt := by
  intro n x
  have hunits : BinaryFormat.double.units (1083 * 2 ^ 52) =
      1152921504606846976 * BinaryFormat.double.scale := by
    decide +kernel
  have hstored : x.stored = (n.toInt : ℚ) := by
    have hvalue : BinaryFormat.double.value (1083 * 2 ^ 52) = 1152921504606846976 := by
      rw [BinaryFormat.value, hunits, Nat.cast_mul]
      exact mul_div_cancel_right₀ _ (by exact_mod_cast BinaryFormat.double.scale_pos.ne')
    exact hvalue
  have hshown : x.shown = 1152921504606847000 := by
    have hgrid : BinaryFormat.double.firstOnGrid (1083 * 2 ^ 52)
        (BinaryFormat.double.coarseGrid (1083 * 2 ^ 52) + BinaryFormat.double.unitBits).toNat =
          ⟨1152921504606847, 3⟩ := by
      decide +kernel
    have hvalue : (BinaryFormat.double.shortest (1083 * 2 ^ 52)).value = 1152921504606847000 := by
      rw [BinaryFormat.value_shortest (by decide), hgrid, Magnitude.value]
      norm_num
    exact hvalue
  have horder := Value.naturalOrder_shown (show (Value.long n).whole? = some n from rfl)
    (show x.isFinite = true from rfl)
  rw [hshown] at horder
  refine ⟨rfl, rfl, hstored, horder.trans (congrArg some (compare_lt_iff_lt.mpr ?_))⟩
  norm_num [show n.toInt = 1152921504606846976 from rfl]

end Reckoner
