import Mathlib.Data.Int.ConditionallyCompleteOrder
import Reckoner.Proofs.WholeOrder

namespace Reckoner

/-- The rational line with both infinities. -/
abbrev ExtendedRat := WithBot (WithTop ℚ)

namespace BinaryFormat

variable (f : BinaryFormat)

/-- The number of a signed rank. -/
def signedValue (n : ℤ) : ℚ :=
  if n < 0 then -f.value n.natAbs else f.value n.natAbs

theorem signedValue_strictMono : StrictMono f.signedValue := by
  intro m n h
  unfold signedValue
  split_ifs
  · exact neg_lt_neg (f.value_strictMono (by omega))
  · have hbelow := f.value_strictMono (show 0 < m.natAbs by omega)
    have habove := f.value_nonneg n.natAbs
    rw [f.value_zero] at hbelow
    linarith
  · omega
  · exact f.value_strictMono (by omega)

/-- Where a signed rank lies on the line. The infinities are one past the last finite magnitude. -/
def place (n : ℤ) : ExtendedRat :=
  if n ≤ -f.ranks then ⊥
  else if f.ranks ≤ n then ((⊤ : WithTop ℚ) : ExtendedRat)
  else ((f.signedValue n : WithTop ℚ) : ExtendedRat)

theorem place_strictMonoOn : StrictMonoOn f.place (Set.Icc (-f.ranks) f.ranks) := by
  intro m hm n hn h
  have hranks := f.ranks_pos
  obtain ⟨hlow, -⟩ := hm
  obtain ⟨-, hhigh⟩ := hn
  unfold place
  split_ifs
  · omega
  · exact WithBot.bot_lt_coe _
  · exact WithBot.bot_lt_coe _
  · omega
  · omega
  · omega
  · omega
  · exact WithBot.coe_lt_coe.mpr (WithTop.coe_lt_top _)
  · exact WithBot.coe_lt_coe.mpr (WithTop.coe_lt_coe.mpr (f.signedValue_strictMono h))

end BinaryFormat

namespace Binary

variable {f : BinaryFormat} {x y low high other : Binary f} {a b : ExtendedRat}

/-- Where a number lies on the line; a NaN lies nowhere. -/
def point? : Binary f → Option ExtendedRat
  | nan _ => none
  | infinite negative => some (if negative then ⊥ else ((⊤ : WithTop ℚ) : ExtendedRat))
  | x@(finite _ _) => some ((x.stored : WithTop ℚ) : ExtendedRat)

/-- Two numbers in order, and none between them. -/
def Adjacent (low high : Binary f) : Prop :=
  ∃ a b, low.point? = some a ∧ high.point? = some b ∧ a < b ∧
    ∀ (z : Binary f) c, z.point? = some c → c ≤ a ∨ b ≤ c

theorem Adjacent.high_unique (h : Adjacent low high) (hother : Adjacent low other) :
    high.point? = other.point? := by
  obtain ⟨a, b, ha, hb, hlt, hnone⟩ := h
  obtain ⟨a', c, ha', hc, hlt', hnone'⟩ := hother
  obtain rfl : a = a' := Option.some.inj (ha.symm.trans ha')
  have hbc : b ≤ c := (hnone other c hc).resolve_left hlt'.not_ge
  have hcb : c ≤ b := (hnone' high b hb).resolve_left hlt.not_ge
  rw [hb, hc, le_antisymm hbc hcb]

theorem Adjacent.low_unique (h : Adjacent low high) (hother : Adjacent other high) :
    low.point? = other.point? := by
  obtain ⟨a, b, ha, hb, hlt, hnone⟩ := h
  obtain ⟨c, b', hc, hb', hlt', hnone'⟩ := hother
  obtain rfl : b = b' := Option.some.inj (hb.symm.trans hb')
  have hca : c ≤ a := (hnone other c hc).resolve_right hlt'.not_ge
  have hac : a ≤ c := (hnone' low a ha).resolve_right hlt.not_ge
  rw [ha, hc, le_antisymm hac hca]

theorem stored_eq_signedValue (negative : Bool) (rank : Fin f.ranks) :
    (finite negative rank : Binary f).stored =
      f.signedValue (finite negative rank : Binary f).signedMagnitude := by
  cases negative with
  | false => simp [stored, signedMagnitude, isNegative, magnitude, BinaryFormat.signedValue]
  | true =>
    rcases Nat.eq_zero_or_pos rank.val with hzero | hpos
    · simp [stored, signedMagnitude, isNegative, magnitude, BinaryFormat.signedValue, hzero]
    · simp [stored, signedMagnitude, isNegative, magnitude, BinaryFormat.signedValue, hpos]

theorem magnitude_le (h : x.isNaN = false) : x.magnitude ≤ f.ranks := by
  cases x with
  | nan => cases h
  | infinite => exact Nat.le_refl _
  | finite _ rank => exact rank.isLt.le

theorem signedMagnitude_mem (h : x.isNaN = false) :
    x.signedMagnitude ∈ Set.Icc (-f.ranks : ℤ) f.ranks := by
  have hle := magnitude_le h
  unfold signedMagnitude
  constructor
  · split <;> omega
  · split <;> omega

/-- A number lies where its signed rank does. -/
theorem point?_eq (h : x.isNaN = false) : x.point? = some (f.place x.signedMagnitude) := by
  have hranks := f.ranks_pos
  cases x with
  | nan => cases h
  | infinite negative =>
    cases negative with
    | false => simp [point?, signedMagnitude, isNegative, magnitude, BinaryFormat.place]; omega
    | true => simp [point?, signedMagnitude, isNegative, magnitude, BinaryFormat.place]
  | finite negative rank =>
    have hrank := rank.isLt
    have hlow : ¬(finite negative rank : Binary f).signedMagnitude ≤ -f.ranks := by
      simp only [signedMagnitude, magnitude]
      split <;> omega
    have hhigh : ¬(f.ranks : ℤ) ≤ (finite negative rank : Binary f).signedMagnitude := by
      simp only [signedMagnitude, magnitude]
      split <;> omega
    rw [BinaryFormat.place, if_neg hlow, if_neg hhigh, ← stored_eq_signedValue, point?]

theorem isNaN_of_point? (h : x.point? = some a) : x.isNaN = false := by
  cases x with
  | nan => cases h
  | infinite => rfl
  | finite => rfl

theorem eq_place (h : x.point? = some a) : a = f.place x.signedMagnitude :=
  Option.some.inj (h.symm.trans (point?_eq (isNaN_of_point? h)))

/-- The order of the line is the order of the signed ranks. -/
theorem point_lt_iff (ha : x.point? = some a) (hb : y.point? = some b) :
    a < b ↔ x.signedMagnitude < y.signedMagnitude := by
  rw [eq_place ha, eq_place hb]
  exact f.place_strictMonoOn.lt_iff_lt (signedMagnitude_mem (isNaN_of_point? ha))
    (signedMagnitude_mem (isNaN_of_point? hb))

theorem compare?_eq (ha : x.point? = some a) (hb : y.point? = some b) :
    x.compare? y = some (compare a b) := by
  have hx := isNaN_of_point? ha
  have hy := isNaN_of_point? hb
  have hplaces := f.place_strictMonoOn.cmp_map_eq (signedMagnitude_mem hx) (signedMagnitude_mem hy)
  rw [← eq_place ha, ← eq_place hb, cmp_eq_compare, cmp_eq_compare] at hplaces
  rw [hplaces]
  simp [compare?, hx, hy]

/-- Numbers whose signed ranks are one apart have no number between them. -/
theorem adjacent_of_succ (hlow : low.isNaN = false) (hhigh : high.isNaN = false)
    (hstep : high.signedMagnitude = low.signedMagnitude + 1) : Adjacent low high := by
  have ha := point?_eq hlow
  have hb := point?_eq hhigh
  refine ⟨_, _, ha, hb, (point_lt_iff ha hb).mpr (by omega), fun z c hc => ?_⟩
  by_contra hbetween
  push Not at hbetween
  have habove := (point_lt_iff ha hc).mp hbetween.1
  have hbelow := (point_lt_iff hc hb).mp hbetween.2
  omega

end Binary

end Reckoner
