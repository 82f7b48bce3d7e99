import Mathlib.Data.List.TakeWhile
import Mathlib.Data.Nat.Digits.Lemmas
import Reckoner.Digits
import Reckoner.Proofs.DecimalValue
import Reckoner.Proofs.Rounding

namespace Reckoner

namespace Digits

variable {d : Digits} {figures front back : List ℕ}

theorem number_concat (front : List ℕ) (last : ℕ) :
    number (front ++ [last]) = 10 * number front + last := by
  rw [number, List.foldl_append]
  rfl

/-- The figures of a number are its digits from the other end. -/
theorem number_eq (figures : List ℕ) : number figures = Nat.ofDigits 10 figures.reverse := by
  induction figures using List.reverseRecOn with
  | nil => rfl
  | append_singleton front last ih =>
    rw [List.reverse_append, List.reverse_singleton, List.singleton_append, Nat.ofDigits_cons, ← ih,
      number_concat, Nat.add_comm]

theorem number_append (front back : List ℕ) :
    number (front ++ back) = number front * 10 ^ back.length + number back := by
  rw [number_eq, number_eq, number_eq, List.reverse_append, Nat.ofDigits_append,
    List.length_reverse, Nat.add_comm, Nat.mul_comm]

theorem number_cons (first : ℕ) (rest : List ℕ) :
    number (first :: rest) = first * 10 ^ rest.length + number rest := by
  have happend := number_append [first] rest
  simpa [number] using happend

theorem number_lt (h : ∀ figure ∈ figures, figure ≤ 9) : number figures < 10 ^ figures.length := by
  rw [number_eq, ← List.length_reverse]
  apply Nat.ofDigits_lt_base_pow_length (by decide)
  intro figure hmem
  have hnine := h figure (List.mem_reverse.mp hmem)
  omega

@[simp]
theorem number_zeros (count : ℕ) : number (List.replicate count 0) = 0 := by
  induction count with
  | zero => rfl
  | succ count ih => rw [List.replicate_succ, number_cons, ih, Nat.zero_mul]

@[simp]
theorem number_map_figure (text : List Char) :
    number (text.map figure) = Nat.ofDigitChars 10 text 0 :=
  List.foldl_map ..

/-- Zeros alone are left out in front. -/
theorem zeros_append_dropWhile (all : List ℕ) :
    List.replicate (all.takeWhile (· == 0)).length 0 ++ all.dropWhile (· == 0) = all := by
  have hzeros : all.takeWhile (· == 0) = List.replicate (all.takeWhile (· == 0)).length 0 := by
    rw [List.eq_replicate_iff]
    exact ⟨rfl, fun figure h => by simpa using List.mem_takeWhile_imp h⟩
  rw [← hzeros, List.takeWhile_append_dropWhile]

theorem exists_trimEnd_append (figures : List ℕ) :
    ∃ count, figures = trimEnd figures ++ List.replicate count 0 := by
  refine ⟨(figures.reverse.takeWhile (· == 0)).length, ?_⟩
  rw [trimEnd, ← List.reverse_replicate, ← List.reverse_append, zeros_append_dropWhile,
    List.reverse_reverse]

/-- A first figure that counts makes the number count. -/
theorem number_ne_zero (hhead : figures.head? ≠ some 0) (hne : figures ≠ []) :
    number figures ≠ 0 := by
  cases figures with
  | nil => contradiction
  | cons first rest =>
    have hfirst : first ≠ 0 := by simpa using hhead
    have hpos := Nat.mul_pos (Nat.pos_of_ne_zero hfirst) (Nat.pow_pos (a := 10) (n := rest.length)
      (by decide))
    rw [number_cons]
    omega

theorem Normal.number_eq_zero_iff {length : ℤ} (h : Normal figures length) :
    number figures = 0 ↔ figures = [] := by
  constructor
  · intro hzero
    by_contra hne
    exact number_ne_zero h.head hne hzero
  · rintro rfl
    rfl

/-- Figures in their normal form are those of their number. -/
theorem Normal.digits_number {length : ℤ} (h : Normal figures length) :
    Nat.digits 10 (number figures) = figures.reverse := by
  rw [number_eq]
  apply Nat.digits_ofDigits 10 (by decide)
  · intro figure hmem
    have hnine := h.le_nine figure (List.mem_reverse.mp hmem)
    omega
  · intro hne hzero
    apply h.head
    rw [← List.getLast?_reverse, List.getLast?_eq_getLast_of_ne_nil hne, hzero]

/-- The first figure stands at the place that the count of figures gives. -/
theorem Normal.decimalLength_number {length : ℤ} (h : Normal figures length)
    (hne : figures ≠ []) : decimalLength (number figures) = figures.length := by
  have hpos := List.length_pos_iff.mpr hne
  have hhigh : decimalLength (number figures) ≤ figures.length :=
    (Nat.length_toDigits_le_iff (by decide) hpos).mpr (number_lt h.le_nine)
  have hlow : 10 ^ (figures.length - 1) ≤ number figures := by
    cases figures with
    | nil => contradiction
    | cons first rest =>
      have hfirst : 1 ≤ first := Nat.one_le_iff_ne_zero.mpr (by simpa using h.head)
      rw [number_cons, List.length_cons, Nat.add_sub_cancel]
      exact (Nat.le_mul_of_pos_left _ hfirst).trans (Nat.le_add_right _ _)
  have hless := hlow.trans_lt (lt_ten_pow_decimalLength (number figures))
  have hlt := (Nat.pow_lt_pow_iff_right (a := 10) (by decide)).mp hless
  omega

/-- A number that is held has no trailing zeros. -/
theorem Normal.stripped (h : Normal d.figures d.integerLength) : d.magnitude.Stripped := by
  rcases List.eq_nil_or_concat d.figures with hnil | ⟨front, last, hfigures⟩
  · left
    rw [magnitude, h.zero hnil, hnil]
    rfl
  · right
    have hlast : last ≠ 0 := by
      rintro rfl
      exact h.last (by rw [hfigures, List.concat_eq_append, List.getLast?_concat])
    have hnine : last ≤ 9 := h.le_nine last (by simp [hfigures])
    rw [magnitude, hfigures, List.concat_eq_append, number_concat]
    simp only
    omega

/-- One magnitude has one normal form. -/
theorem eq_of_magnitude_eq {c : Digits} (hc : Normal c.figures c.integerLength)
    (hd : Normal d.figures d.integerLength) (hsign : c.negative = d.negative)
    (hsource : c.source = d.source) (hmagnitude : c.magnitude = d.magnitude) : c = d := by
  obtain ⟨hnumber, hexponent⟩ := Magnitude.mk.inj hmagnitude
  have hfigures : c.figures = d.figures := by
    rw [← List.reverse_inj, ← hc.digits_number, ← hd.digits_number, hnumber]
  rw [hfigures] at hexponent
  obtain ⟨sign, figures, length, source⟩ := c
  obtain ⟨sign', figures', length', source'⟩ := d
  simp only [mk.injEq] at *
  exact ⟨hsign, hfigures, by omega, hsource⟩

/-- Zeros at both ends are left out, and the point stays where it is. -/
theorem value_ofParts (negative : Bool) (all : List ℕ) (whole : ℤ) :
    (ofParts negative all whole).magnitude.value = number all * 10 ^ (whole - all.length) := by
  obtain ⟨count, hcount⟩ := exists_trimEnd_append (all.dropWhile (· == 0))
  have hall := zeros_append_dropWhile all
  unfold ofParts magnitude
  dsimp only
  generalize (all.takeWhile (· == 0)).length = leading at hall ⊢
  generalize trimEnd (all.dropWhile (· == 0)) = figures at hcount ⊢
  have hnumber : number all = number figures * 10 ^ count := by
    rw [← hall, hcount, number_append, number_append, number_zeros, number_zeros,
      List.length_replicate]
    simp
  have hlength : all.length = leading + figures.length + count := by
    rw [← hall, hcount]
    simp [Nat.add_assoc]
  rw [Magnitude.value, hnumber]
  cases hempty : figures.isEmpty with
  | true => simp [List.isEmpty_iff.mp hempty, number]
  | false =>
    simp only [Bool.false_eq_true, if_false]
    rw [Nat.cast_mul, Nat.cast_pow, Nat.cast_ofNat, mul_assoc, ← zpow_natCast,
      ← zpow_add₀ (by norm_num), hlength]
    congr 2
    push_cast
    ring

/-- One more in a number whose last figure comes first; what is carried stands for a figure past
all of them. -/
theorem ofDigits_addOne (figures : List ℕ) :
    Nat.ofDigits 10 (addOne figures).1 + (addOne figures).2.toNat * 10 ^ figures.length =
      Nat.ofDigits 10 figures + 1 := by
  induction figures with
  | nil => rfl
  | cons figure rest ih =>
    unfold addOne
    split
    · rename_i hnine
      simp only [Nat.ofDigits_cons, List.length_cons, hnine, Nat.pow_succ]
      generalize Nat.ofDigits 10 (addOne rest).1 = added at ih ⊢
      have hcarried : (addOne rest).2.toNat * (10 ^ rest.length * 10) =
          10 * ((addOne rest).2.toNat * 10 ^ rest.length) := by ring
      omega
    · simp only [Nat.ofDigits_cons, Bool.toNat_false]
      omega

theorem value_increment (d : Digits) :
    d.increment.magnitude.value =
      d.magnitude.value + 10 ^ (d.integerLength - d.figures.length) := by
  have hadded := ofDigits_addOne d.figures.reverse
  have hlength := length_addOne d.figures.reverse
  rw [← number_eq] at hadded
  have hnumber : number (addOne d.figures.reverse).1.reverse =
      Nat.ofDigits 10 (addOne d.figures.reverse).1 := by
    rw [number_eq, List.reverse_reverse]
  rw [← hnumber, List.length_reverse] at hadded
  rw [List.length_reverse] at hlength
  unfold increment
  dsimp only
  split
  · rename_i hcarried
    rw [hcarried, Bool.toNat_true, one_mul] at hadded
    have hsum : number (1 :: (addOne d.figures.reverse).1.reverse) = number d.figures + 1 := by
      rw [number_cons, List.length_reverse, hlength]
      omega
    simp only [magnitude, Magnitude.value, hsum, List.length_cons, List.length_reverse, hlength]
    push_cast
    rw [add_sub_add_right_eq_sub]
    ring
  · rename_i hnone
    rw [Bool.eq_false_iff.mpr hnone, Bool.toNat_false, zero_mul, add_zero] at hadded
    simp only [magnitude, Magnitude.value, hadded, List.length_reverse, hlength]
    push_cast
    ring

theorem value_trim (d : Digits) : d.trim.magnitude.value = d.magnitude.value := by
  obtain ⟨count, hcount⟩ := exists_trimEnd_append d.figures
  unfold trim magnitude
  dsimp only
  generalize trimEnd d.figures = figures at hcount ⊢
  rw [hcount]
  simp only [Magnitude.value, number_append, number_zeros, List.length_append,
    List.length_replicate]
  cases hempty : figures.isEmpty with
  | true => simp [List.isEmpty_iff.mp hempty, number]
  | false =>
    simp only [Bool.false_eq_true, if_false]
    push_cast
    rw [add_zero, mul_assoc, ← zpow_natCast, ← zpow_add₀ (by norm_num)]
    congr 2
    ring

/-- Whether a ratio of whole numbers is taken up, by the part that is left over and by the side
that the number which is meant is on. -/
def goesUp (source : Ordering) (num den : ℕ) : Bool :=
  match compare (2 * (num % den)) den, source with
  | .lt, _ => false
  | .gt, _ => true
  | .eq, .lt => false
  | .eq, .gt => true
  | .eq, .eq => num / den % 2 == 1

/-- What is left after the first figure dropped counts, if there is any. -/
theorem number_pos_of_last (hlast : figures.getLast? ≠ some 0) (hne : figures ≠ []) :
    0 < number figures := by
  rcases List.eq_nil_or_concat figures with hnil | ⟨front, last, hfigures⟩
  · contradiction
  · rw [hfigures, List.concat_eq_append] at hlast ⊢
    have hcounts : last ≠ 0 := by simpa using hlast
    rw [number_concat]
    omega

/-- A number is odd if its last figure is. -/
theorem odd_last (kept rest : List ℕ) :
    (decide (0 < kept.length) && (kept ++ rest).getD (kept.length - 1) 0 % 2 == 1) =
      (number kept % 2 == 1) := by
  rcases List.eq_nil_or_concat kept with rfl | ⟨front, last, rfl⟩
  · rfl
  · have hmod : (10 * number front + last) % 2 = last % 2 := by omega
    rw [List.concat_eq_append, number_concat, hmod]
    simp

/-- The first figure tells on which side of the middle a number is, unless it is a five: then the
rest does. -/
theorem compare_middle {first rest cell : ℕ} (h : rest < cell) :
    compare (2 * (first * cell + rest)) (10 * cell) = (compare first 5).then (compare rest 0) := by
  rcases lt_trichotomy first 5 with hless | rfl | hmore
  · have hle := Nat.mul_le_mul_right cell (Nat.le_of_lt_succ hless)
    rw [Nat.compare_eq_lt.mpr hless, Nat.compare_eq_lt.mpr (by omega)]
    rfl
  · rw [Nat.compare_eq_eq.mpr rfl, Ordering.eq_then]
    rcases Nat.eq_zero_or_pos rest with rfl | hpos
    · rw [Nat.compare_eq_eq.mpr (by omega), Nat.compare_eq_eq.mpr rfl]
    · rw [Nat.compare_eq_gt.mpr (by omega), Nat.compare_eq_gt.mpr hpos]
  · have hle := Nat.mul_le_mul_right cell (Nat.succ_le_of_lt hmore)
    rw [Nat.compare_eq_gt.mpr hmore, Nat.compare_eq_gt.mpr (by omega)]
    rfl

/-- The first figure dropped and whether there are more tell on which side of the middle the rest
is. -/
theorem roundsUp_eq (h : Normal d.figures d.integerLength) {keep : ℕ}
    (hkeep : keep < d.figures.length) :
    d.roundsUp keep =
      goesUp d.source (number d.figures) (10 ^ (d.figures.length - keep)) := by
  obtain ⟨kept, first, rest, hfigures, rfl⟩ :
      ∃ kept first rest, d.figures = kept ++ first :: rest ∧ kept.length = keep := by
    refine ⟨d.figures.take keep, d.figures[keep], d.figures.drop (keep + 1), ?_, ?_⟩
    · rw [← List.drop_eq_getElem_cons hkeep, List.take_append_drop]
    · rw [List.length_take]
      omega
  have hnine := h.le_nine
  have hlast := h.last
  rw [hfigures] at hnine hlast
  have hfirst : first ≤ 9 := hnine first (by simp)
  have hrest : number rest < 10 ^ rest.length := by
    apply number_lt
    intro figure hmem
    exact hnine figure (by simp [hmem])
  have hfigure : (kept ++ first :: rest).getD kept.length 0 = first := by simp
  have hmore : decide (kept.length + 1 < (kept ++ first :: rest).length) = !rest.isEmpty := by
    cases rest <;> simp
  have hden : 10 ^ ((kept ++ first :: rest).length - kept.length) = 10 * 10 ^ rest.length := by
    rw [List.length_append, Nat.add_sub_cancel_left, List.length_cons, Nat.pow_succ']
  have hcoefficient : number (kept ++ first :: rest) =
      10 * 10 ^ rest.length * number kept + (first * 10 ^ rest.length + number rest) := by
    rw [number_append, number_cons, List.length_cons, Nat.pow_succ', Nat.mul_comm]
  have hdropped : first * 10 ^ rest.length + number rest < 10 * 10 ^ rest.length := by
    have hle := Nat.mul_le_mul_right (10 ^ rest.length) hfirst
    omega
  have hside : compare (number rest) 0 = if rest.isEmpty then .eq else .gt := by
    split
    · rename_i hempty
      rw [List.isEmpty_iff.mp hempty]
      rfl
    · rename_i hne
      apply Nat.compare_eq_gt.mpr
      apply number_pos_of_last
      · intro hzero
        exact hlast (by simp [List.getLast?_cons, hzero])
      · simpa using hne
  unfold roundsUp goesUp
  rw [hfigures, hfigure, hmore, odd_last, hden, hcoefficient, Nat.mul_add_mod,
    Nat.mod_eq_of_lt hdropped, Nat.mul_add_div (by positivity), Nat.div_eq_of_lt hdropped,
    compare_middle hrest, hside, Nat.add_zero]
  cases compare first 5 <;> cases rest.isEmpty <;> cases d.source <;> rfl

theorem coefficient_magnitude (d : Digits) : d.magnitude.coefficient = number d.figures :=
  rfl

theorem exponent_magnitude (d : Digits) :
    d.magnitude.exponent = d.integerLength - d.figures.length :=
  rfl

theorem round_of_le {places : ℕ} (h : -d.magnitude.exponent ≤ places) : d.round places = d := by
  rw [exponent_magnitude] at h
  exact if_pos (by omega)

/-- Nothing is left where the first figure comes after the places and one more zero. -/
theorem value_round_of_neg {places : ℕ} (hkeep : d.integerLength + places < 0) :
    (d.round places).magnitude.value = 0 := by
  have hround : d.round places = { d with figures := [], integerLength := 0 } := by
    unfold round
    dsimp only
    rw [if_neg (by omega), if_pos hkeep]
  rw [hround]
  simp [magnitude, Magnitude.value, number]

theorem value_round_of_keep {places keep : ℕ} (hkeep : d.integerLength + places = keep)
    (hlt : keep < d.figures.length) :
    (d.round places).magnitude.value =
      (number (d.figures.take keep) + (d.roundsUp keep).toNat : ℕ) * 10 ^ (-places : ℤ) := by
  have hround : d.round places =
      (if d.roundsUp keep then
        increment { d with figures := d.figures.take keep, source := .eq }
      else { d with figures := d.figures.take keep, source := .eq }).trim := by
    unfold round
    dsimp only
    rw [if_neg (by omega), if_neg (by omega), hkeep, Int.toNat_natCast]
  have htaken : (d.figures.take keep).length = keep := by
    rw [List.length_take]
    omega
  have hexponent : d.integerLength - keep = -places := by omega
  rw [hround, value_trim]
  cases d.roundsUp keep with
  | true =>
    rw [if_pos rfl, value_increment]
    simp only [magnitude, Magnitude.value, htaken, hexponent, Bool.toNat_true]
    push_cast
    ring
  | false =>
    simp [magnitude, Magnitude.value, htaken, hexponent]

/-- Rounding drops the figures past the places, and what is kept goes up or not. -/
theorem value_round_of_lt (h : Normal d.figures d.integerLength) {places den : ℕ}
    (hplaces : 0 < -d.magnitude.exponent - places)
    (hden : den = 10 ^ (-d.magnitude.exponent - places).toNat) :
    (d.round places).magnitude.value =
      (d.magnitude.coefficient / den + (goesUp d.source d.magnitude.coefficient den).toNat : ℕ) *
        10 ^ (-places : ℤ) := by
  rw [exponent_magnitude] at hplaces hden
  rw [coefficient_magnitude]
  rcases Int.lt_or_le (d.integerLength + places) 0 with hneg | hnonneg
  · have hpow : 10 ^ (d.figures.length + 1) ≤ den := by
      rw [hden]
      exact Nat.pow_le_pow_right (by decide) (by omega)
    have hlt := number_lt h.le_nine
    rw [Nat.pow_succ] at hpow
    have hsmall : number d.figures < den := by omega
    have hstays : goesUp d.source (number d.figures) den = false := by
      unfold goesUp
      rw [Nat.mod_eq_of_lt hsmall, Nat.compare_eq_lt.mpr (by omega)]
    rw [value_round_of_neg hneg, hstays, Nat.div_eq_of_lt hsmall]
    simp
  · obtain ⟨keep, hkeep⟩ : ∃ keep : ℕ, d.integerLength + places = keep :=
      ⟨_, (Int.toNat_of_nonneg hnonneg).symm⟩
    have hdropped : den = 10 ^ (d.figures.length - keep) := by
      rw [hden]
      congr 1
      omega
    have hquotient : number d.figures / 10 ^ (d.figures.length - keep) =
        number (d.figures.take keep) := by
      have hsplit := number_append (d.figures.take keep) (d.figures.drop keep)
      have hrest : number (d.figures.drop keep) < 10 ^ (d.figures.length - keep) := by
        rw [← List.length_drop]
        apply number_lt
        intro figure hmem
        exact h.le_nine figure (List.mem_of_mem_drop hmem)
      rw [List.take_append_drop, List.length_drop] at hsplit
      rw [hsplit, Nat.mul_comm, Nat.mul_add_div (by positivity), Nat.div_eq_of_lt hrest,
        Nat.add_zero]
    rw [value_round_of_keep hkeep (by omega), roundsUp_eq h (by omega), hdropped, hquotient]

@[simp]
theorem negative_increment (d : Digits) : d.increment.negative = d.negative := by
  unfold increment
  dsimp only
  split <;> rfl

@[simp]
theorem negative_round (d : Digits) (places : ℕ) : (d.round places).negative = d.negative := by
  unfold round
  dsimp only
  split
  · rfl
  · split
    · rfl
    · split
      · exact negative_increment _
      · rfl

theorem source_increment (d : Digits) : d.increment.source = d.source := by
  unfold increment
  dsimp only
  split <;> rfl

/-- Figures that stand for themselves do so after rounding. -/
theorem source_round (h : d.source = .eq) (places : ℕ) : (d.round places).source = .eq := by
  unfold round
  dsimp only
  split
  · exact h
  · split
    · exact h
    · split
      · exact source_increment _
      · rfl

theorem le_nine_append_zeros (h : ∀ figure ∈ figures, figure ≤ 9) (count : ℕ) :
    ∀ figure ∈ figures ++ List.replicate count 0, figure ≤ 9 := by
  intro figure hmem
  rcases List.mem_append.mp hmem with hmem | hmem
  · exact h figure hmem
  · rw [List.eq_of_mem_replicate hmem]
    decide

theorem integerDigits_le_nine (h : ∀ figure ∈ d.figures, figure ≤ 9) :
    ∀ figure ∈ d.integerDigits, figure ≤ 9 := by
  apply le_nine_append_zeros
  intro figure hmem
  exact h figure (List.mem_of_mem_take hmem)

theorem fractionDigits_le_nine (h : ∀ figure ∈ d.figures, figure ≤ 9) :
    ∀ figure ∈ d.fractionDigits, figure ≤ 9 := by
  intro figure hmem
  unfold fractionDigits at hmem
  split at hmem
  · exact h figure (List.mem_of_mem_drop hmem)
  · exact le_nine_append_zeros h _ figure (List.mem_append.mpr (List.mem_append.mp hmem).symm)

theorem length_fractionDigits (d : Digits) :
    d.fractionDigits.length = (-d.magnitude.exponent).toNat := by
  rw [exponent_magnitude]
  unfold fractionDigits
  split
  · rw [List.length_drop]
    omega
  · rw [List.length_append, List.length_replicate]
    omega

/-- The figures before and after the point are those that are held, with zeros up to the point. -/
theorem number_append_digits (d : Digits) :
    number (d.integerDigits ++ d.fractionDigits) =
      number d.figures * 10 ^ d.magnitude.exponent.toNat := by
  rw [exponent_magnitude]
  unfold integerDigits fractionDigits
  dsimp only
  rcases Int.lt_or_le d.integerLength 0 with hneg | hnonneg
  · have hnone : d.integerLength.toNat = 0 := by omega
    have hexponent : (d.integerLength - d.figures.length).toNat = 0 := by omega
    rw [if_neg (by omega), hnone, hexponent, List.take_zero, Nat.zero_sub, List.replicate_zero,
      List.append_nil, List.nil_append, number_append, number_zeros, Nat.zero_mul, Nat.zero_add,
      Nat.pow_zero, Nat.mul_one]
  · have hexponent : (d.integerLength - d.figures.length).toNat =
        d.integerLength.toNat - d.figures.length := by omega
    rw [if_pos hnonneg, hexponent]
    rcases Nat.le_total d.integerLength.toNat d.figures.length with hle | hle
    · rw [Nat.sub_eq_zero_of_le hle, List.replicate_zero, List.append_nil, List.take_append_drop,
        Nat.pow_zero, Nat.mul_one]
    · rw [List.take_of_length_le hle, List.drop_of_length_le hle, List.append_nil, number_append,
        number_zeros, List.length_replicate, Nat.add_zero]

theorem number_integerDigits (h : ∀ figure ∈ d.figures, figure ≤ 9) :
    number d.integerDigits =
      d.magnitude.coefficient * 10 ^ d.magnitude.exponent.toNat /
        10 ^ (-d.magnitude.exponent).toNat := by
  have hfraction := number_lt (fractionDigits_le_nine h)
  rw [coefficient_magnitude, ← number_append_digits, number_append, ← length_fractionDigits,
    Nat.mul_comm, Nat.mul_add_div (by positivity), Nat.div_eq_of_lt hfraction, Nat.add_zero]

theorem number_fractionDigits (h : ∀ figure ∈ d.figures, figure ≤ 9) :
    number d.fractionDigits =
      d.magnitude.coefficient % 10 ^ (-d.magnitude.exponent).toNat := by
  have hfraction := number_lt (fractionDigits_le_nine h)
  have hall := number_append_digits d
  rw [number_append, length_fractionDigits] at hall
  rw [length_fractionDigits] at hfraction
  rw [coefficient_magnitude]
  rcases Int.le_total 0 d.magnitude.exponent with hwhole | hplaces
  · have hone : (-d.magnitude.exponent).toNat = 0 := by omega
    rw [hone, Nat.pow_zero] at hfraction ⊢
    omega
  · have hone : d.magnitude.exponent.toNat = 0 := by omega
    rw [hone, Nat.pow_zero, Nat.mul_one] at hall
    rw [← hall, Nat.mul_comm, Nat.mul_add_mod, Nat.mod_eq_of_lt hfraction]

/-- The figures before the point begin as those that are held. -/
theorem Normal.head?_integerDigits (h : Normal d.figures d.integerLength) :
    d.integerDigits.head? ≠ some 0 := by
  cases hfigures : d.figures with
  | nil => simp [integerDigits, hfigures, h.zero hfigures]
  | cons first rest =>
    have hhead := h.head
    rw [hfigures] at hhead
    unfold integerDigits
    rw [hfigures]
    cases d.integerLength.toNat with
    | zero => simp
    | succ length => simpa using hhead

theorem Normal.getLast?_fractionDigits (h : Normal d.figures d.integerLength) :
    d.fractionDigits.getLast? ≠ some 0 := by
  unfold fractionDigits
  split
  · rw [List.getLast?_drop]
    split
    · simp
    · exact h.last
  · rename_i hneg
    have hne : d.figures ≠ [] := by
      intro hnil
      rw [h.zero hnil] at hneg
      omega
    rw [List.getLast?_append_of_ne_nil _ hne]
    exact h.last

end Digits

end Reckoner
