import Reckoner.Proofs.BinaryExpansion
import Reckoner.Proofs.DigitText
import Reckoner.Value.Text

namespace Reckoner

namespace Magnitude

/-- What the digits around the point of a plain text are. -/
structure Spelled (m : Magnitude) (whole fraction : List Char) : Prop where
  text : m.plain = whole ++ if fraction = [] then [] else '.' :: fraction
  isDigit : ∀ c ∈ whole ++ fraction, c.isDigit
  shown : whole ≠ []
  number : (Nat.ofDigitChars 10 (whole ++ fraction) 0 : ℚ) = m.value * 10 ^ fraction.length
  places : fraction.length = (-m.exponent).toNat

theorem exists_spelled_of_whole {m : Magnitude} (h : 0 ≤ m.exponent) :
    ∃ whole fraction, m.Spelled whole fraction := by
  refine ⟨Nat.toDigits 10 m.coefficient ++ List.replicate m.exponent.toNat '0', [], ?_, ?_, ?_,
    ?_, ?_⟩
  · rw [plain, if_pos h, if_pos rfl, List.append_nil]
  · intro c hc
    rw [List.append_nil] at hc
    rcases List.mem_append.mp hc with hdigit | hzero
    · exact Nat.isDigit_of_mem_toDigits (by decide) (by decide) hdigit
    · rw [List.eq_of_mem_replicate hzero]
      decide
  · exact List.append_ne_nil_of_left_ne_nil (List.length_pos_iff.mp (decimalLength_pos _)) _
  · rw [List.append_nil, Nat.ofDigitChars_append, Nat.ofDigitChars_ten_toDigits,
      Nat.ofDigitChars_replicate_zero, value, ten_zpow_split h]
    push_cast
    simp [mul_comm]
  · rw [List.length_nil]
    omega

/-- Zeros before the digits leave room for one of them before the point. -/
theorem exists_spelled_of_places {m : Magnitude} (h : m.exponent < 0) :
    ∃ whole fraction, m.Spelled whole fraction := by
  obtain ⟨places, hplaces⟩ : ∃ places, places = (-m.exponent).toNat := ⟨_, rfl⟩
  obtain ⟨digits, hdigits⟩ :
      ∃ digits, digits = Numeral.padded (places + 1) (Nat.toDigits 10 m.coefficient) := ⟨_, rfl⟩
  have hlength : places + 1 ≤ digits.length := by
    rw [hdigits, Numeral.length_padded]
    exact le_max_left _ _
  have hfraction : (digits.drop (digits.length - places)).length = places := by
    rw [List.length_drop]
    omega
  refine ⟨digits.take (digits.length - places), digits.drop (digits.length - places), ?_, ?_, ?_,
    ?_, ?_⟩
  · have hne : digits.drop (digits.length - places) ≠ [] := by
      rw [← List.length_pos_iff]
      omega
    rw [plain, if_neg (by omega), if_neg hne, hdigits, hplaces]
    rfl
  · rw [List.take_append_drop, hdigits]
    exact fun c => Numeral.isDigit_of_mem_padded
      (fun d hd => Nat.isDigit_of_mem_toDigits (by decide) (by decide) hd)
  · rw [← List.length_pos_iff, List.length_take]
    omega
  · rw [List.take_append_drop, hfraction, hdigits, Numeral.padded_value,
      Nat.ofDigitChars_ten_toDigits, value, mul_assoc, ← zpow_natCast, ← zpow_add₀ (by norm_num),
      show m.exponent + (places : ℤ) = 0 by omega, zpow_zero, mul_one]
  · rw [hfraction, hplaces]

theorem exists_spelled (m : Magnitude) : ∃ whole fraction, m.Spelled whole fraction := by
  rcases Int.lt_or_le m.exponent 0 with h | h
  · exact exists_spelled_of_places h
  · exact exists_spelled_of_whole h

theorem Spelled.point_not_mem {m : Magnitude} {whole fraction : List Char}
    (h : m.Spelled whole fraction) : '.' ∉ whole := by
  intro hmem
  simpa using h.isDigit '.' (List.mem_append_left _ hmem)

theorem Stripped.strip_eq {m : Magnitude} (h : m.Stripped) : m.strip = m :=
  m.strip_stripped.eq_of_value_eq h m.value_strip

end Magnitude

theorem BinaryFormat.shortest_stripped (f : BinaryFormat) (rank : ℕ) :
    (f.shortest rank).Stripped := by
  unfold shortest
  split
  · exact Or.inl rfl
  · exact Magnitude.strip_stripped _

namespace Digits

variable {text whole fraction : List Char} {negative : Bool} {d : Digits}

theorem decide_ne_point (h : '.' ∉ whole) : ∀ c ∈ whole, decide (c ≠ '.') = true := by
  intro c hc
  rw [decide_eq_true_eq]
  rintro rfl
  exact h hc

theorem splitPoint_of_not_mem (h : '.' ∉ whole) : splitPoint whole = (whole, []) := by
  have hpoint := decide_ne_point h
  rw [splitPoint, List.takeWhile_eq_self_iff.mpr hpoint, List.dropWhile_eq_nil_iff.mpr hpoint]
  rfl

theorem splitPoint_cons (h : '.' ∉ whole) (fraction : List Char) :
    splitPoint (whole ++ '.' :: fraction) = (whole, fraction) := by
  have hpoint := decide_ne_point h
  rw [splitPoint, List.takeWhile_append_of_pos hpoint, List.dropWhile_append_of_pos hpoint]
  simp

theorem splitPoint_append (h : '.' ∉ whole) (fraction : List Char) :
    splitPoint (whole ++ if fraction = [] then [] else '.' :: fraction) = (whole, fraction) := by
  split
  · rename_i hnil
    rw [hnil, List.append_nil]
    exact splitPoint_of_not_mem h
  · exact splitPoint_cons h fraction

/-- Every text is what is split off it, with a point between if it has one. -/
theorem splitPoint_cases (text : List Char) :
    text = (splitPoint text).1 ∧ (splitPoint text).2 = [] ∨
      text = (splitPoint text).1 ++ '.' :: (splitPoint text).2 := by
  have hsplit : text.takeWhile (· ≠ '.') ++ text.dropWhile (· ≠ '.') = text :=
    List.takeWhile_append_dropWhile
  have hhead := List.head?_dropWhile_not (· ≠ '.') text
  unfold splitPoint
  cases hdrop : text.dropWhile (· ≠ '.') with
  | nil =>
    rw [hdrop, List.append_nil] at hsplit
    exact .inl ⟨hsplit.symm, rfl⟩
  | cons c rest =>
    rw [hdrop] at hsplit hhead
    obtain rfl : c = '.' := by simpa using hhead
    exact .inr hsplit.symm

/-- Digits with at most one point among them. -/
structure Unsigned (text whole fraction : List Char) : Prop where
  text : text = whole ∧ fraction = [] ∨ text = whole ++ '.' :: fraction
  isDigit : ∀ c ∈ whole ++ fraction, c.isDigit
  shown : whole ++ fraction ≠ []

theorem Unsigned.splitPoint (h : Unsigned text whole fraction) :
    Digits.splitPoint text = (whole, fraction) := by
  have hpoint : '.' ∉ whole := by
    intro hmem
    simpa using h.isDigit '.' (List.mem_append_left _ hmem)
  rcases h.text with ⟨rfl, rfl⟩ | rfl
  · exact splitPoint_of_not_mem hpoint
  · exact splitPoint_cons hpoint fraction

theorem Unsigned.not_minus {rest : List Char} (h : Unsigned text whole fraction) :
    text ≠ '-' :: rest := by
  rintro rfl
  have hminus : '-' ∉ whole := by
    intro hmem
    simpa using h.isDigit '-' (List.mem_append_left _ hmem)
  cases whole with
  | nil => rcases h.text with ⟨htext, -⟩ | htext <;> simp at htext
  | cons c whole =>
    rcases h.text with ⟨htext, -⟩ | htext
    · rw [← htext] at hminus
      simp at hminus
    · rw [List.cons_append, List.cons.injEq] at htext
      exact hminus (by rw [htext.1]; exact List.mem_cons_self)

theorem ofUnsigned?_eq_some_iff : ofUnsigned? negative text = some d ↔
    ∃ whole fraction, Unsigned text whole fraction ∧
      d = ofParts negative ((whole ++ fraction).map figure) whole.length := by
  constructor
  · intro h
    unfold ofUnsigned? at h
    dsimp only at h
    split at h
    · rename_i hall
      obtain rfl := Option.some.inj h
      exact ⟨_, _, ⟨splitPoint_cases text, List.all_eq_true.mp hall.2, hall.1⟩, rfl⟩
    · contradiction
  · rintro ⟨whole, fraction, h, rfl⟩
    unfold ofUnsigned?
    rw [h.splitPoint]
    exact if_pos ⟨h.shown, List.all_eq_true.mpr h.isDigit⟩

/-- Digits with at most one point among them, perhaps after a minus. -/
def Plain (text : List Char) (negative : Bool) (whole fraction : List Char) : Prop :=
  ∃ unsigned, text = (if negative then ['-'] else []) ++ unsigned ∧
    Unsigned unsigned whole fraction

theorem ofPlain?_of_plain (h : Plain text negative whole fraction) :
    ofPlain? text = some (ofParts negative ((whole ++ fraction).map figure) whole.length) := by
  obtain ⟨unsigned, rfl, hunsigned⟩ := h
  have hread : ofUnsigned? negative unsigned = _ :=
    ofUnsigned?_eq_some_iff.mpr ⟨whole, fraction, hunsigned, rfl⟩
  cases negative with
  | true => exact hread
  | false =>
    rw [← hread]
    apply ofPlain?.eq_2
    intro rest hrest
    exact hunsigned.not_minus hrest

theorem ofPlain?_eq_some_iff : ofPlain? text = some d ↔
    ∃ negative whole fraction, Plain text negative whole fraction ∧
      d = ofParts negative ((whole ++ fraction).map figure) whole.length := by
  constructor
  · intro h
    unfold ofPlain? at h
    split at h
    · rename_i rest
      obtain ⟨whole, fraction, hunsigned, hd⟩ := ofUnsigned?_eq_some_iff.mp h
      exact ⟨true, whole, fraction, ⟨rest, rfl, hunsigned⟩, hd⟩
    · obtain ⟨whole, fraction, hunsigned, hd⟩ := ofUnsigned?_eq_some_iff.mp h
      exact ⟨false, whole, fraction, ⟨text, rfl, hunsigned⟩, hd⟩
  · rintro ⟨negative, whole, fraction, hplain, rfl⟩
    exact ofPlain?_of_plain hplain

/-- The point stands after the whole part, so that the fraction counts as many places. -/
theorem magnitude_value_unsigned (negative : Bool) (whole fraction : List Char) :
    (ofParts negative ((whole ++ fraction).map figure) whole.length).magnitude.value =
      (Nat.ofDigitChars 10 (whole ++ fraction) 0 : ℚ) * 10 ^ (-fraction.length : ℤ) := by
  rw [value_ofParts, number_map_figure, List.length_map, List.length_append]
  congr 2
  push_cast
  ring

end Digits

/-- The plain text of a magnitude is digits with at most one point among them. -/
theorem Magnitude.Spelled.unsigned {m : Magnitude} {whole fraction : List Char}
    (h : m.Spelled whole fraction) : Digits.Unsigned m.plain whole fraction where
  text := by
    rw [h.text]
    cases fraction with
    | nil => exact .inl ⟨List.append_nil _, rfl⟩
    | cons c rest => exact .inr rfl
  isDigit := h.isDigit
  shown := List.append_ne_nil_of_left_ne_nil h.shown _

namespace Numeral

theorem ofPlain?_eq_some_iff {text : List Char} {n : Numeral} :
    ofPlain? text = some n ↔ Digits.ofPlain? text = some n.toDigits := by
  rw [ofPlain?, Option.pmap_eq_some_iff]
  constructor
  · rintro ⟨d, -, hd, rfl⟩
    exact hd
  · intro h
    exact ⟨n.toDigits, n.normal, h, rfl⟩

/-- A plain text is read as the number that it spells. -/
theorem exists_ofPlain? {text whole fraction : List Char} {negative : Bool}
    (h : Digits.Plain text negative whole fraction) :
    ∃ n, ofPlain? text = some n ∧ n.IsExact ∧ n.negative = negative ∧
      |n.value| = (Nat.ofDigitChars 10 (whole ++ fraction) 0 : ℚ) * 10 ^ (-fraction.length : ℤ) := by
  have hread := Digits.ofPlain?_of_plain h
  obtain ⟨n, hn⟩ : ∃ n : Numeral, n.toDigits = Digits.ofParts negative
      ((whole ++ fraction).map Digits.figure) whole.length :=
    ⟨⟨_, Digits.normal_ofPlain? hread⟩, rfl⟩
  refine ⟨n, ?_, ⟨n.stripped, ?_⟩, ?_, ?_⟩
  · rw [ofPlain?_eq_some_iff, hn]
    exact hread
  · rw [hn]
    rfl
  · rw [hn]
    rfl
  · rw [abs_value, hn, Digits.magnitude_value_unsigned]

/-- A plain text has as many digits after its point as the number has places. -/
theorem length_splitPoint_signed (negative : Bool) (m : Magnitude) :
    (Digits.splitPoint (Binary.signed negative m.plain).toList).2.length =
      (-m.exponent).toNat := by
  obtain ⟨whole, fraction, hm⟩ := m.exists_spelled
  rw [Binary.signed, String.toList_ofList, hm.text, ← hm.places]
  cases negative with
  | true =>
    have hpoint : '.' ∉ '-' :: whole := by simpa using hm.point_not_mem
    rw [if_pos rfl, ← List.cons_append, Digits.splitPoint_append hpoint]
  | false => rw [if_neg Bool.false_ne_true, Digits.splitPoint_append hm.point_not_mem]

/-- The plain text of a magnitude is read as that magnitude. -/
theorem ofPlain?_signed (negative : Bool) (m : Magnitude) :
    ofPlain? (Binary.signed negative m.plain).toList = some (ofMagnitude negative m) := by
  obtain ⟨whole, fraction, hm⟩ := m.exists_spelled
  have hplain : Digits.Plain (Binary.signed negative m.plain).toList negative whole fraction := by
    refine ⟨m.plain, ?_, hm.unsigned⟩
    rw [Binary.signed, String.toList_ofList]
    cases negative <;> rfl
  obtain ⟨n, hn, hexact, hsign, hvalue⟩ := exists_ofPlain? hplain
  rw [hn]
  refine congrArg some (hexact.eq (ofMagnitude_isExact _ _) hsign ?_)
  rw [hvalue, hm.number, abs_value, magnitude_ofMagnitude, Magnitude.value_strip, mul_assoc,
    zpow_neg, zpow_natCast, mul_inv_cancel₀ (by positivity), mul_one]

theorem ofPlain?_exact (x : Exact) : ofPlain? x.plain.toList = some (ofExact x) :=
  ofPlain?_signed _ _

/-- The text of a whole number is its plain one. -/
theorem toString_eq_plain (n : ℤ) : toString n = (Exact.ofInt n).plain := by
  have hplain : (Exact.ofInt n).plain =
      Binary.signed (decide (n < 0)) (Nat.toDigits 10 n.natAbs) := by
    rw [Exact.plain, Exact.ofInt, Exact.magnitude, Magnitude.plain, if_pos (le_refl _)]
    simp [Exact.isNegative]
  rw [hplain]
  cases n with
  | ofNat k => exact Nat.toString_eq_ofList_toDigits
  | negSucc k =>
    change "-" ++ toString (k + 1) = _
    rw [Nat.toString_eq_ofList_toDigits, Binary.signed, if_pos (by simp), Int.natAbs_negSucc]
    exact (String.ofList_append ..).symm

/-- The digits of a double are those of its text. Only halfway cases know of the double. -/
theorem exists_ofRank? (negative : Bool) (rank : Fin BinaryFormat.double.ranks) :
    ∃ n, ofRank? negative rank = some n ∧ n.negative = negative ∧
      n.magnitude = BinaryFormat.double.shortest rank ∧
      n.source = compare (BinaryFormat.double.value rank)
        (BinaryFormat.double.shortest rank).value := by
  have hread := ofPlain?_eq_some_iff.mp (ofPlain?_signed negative (BinaryFormat.double.shortest rank))
  have hmagnitude : (ofMagnitude negative (BinaryFormat.double.shortest rank)).magnitude =
      BinaryFormat.double.shortest rank := by
    rw [magnitude_ofMagnitude, (BinaryFormat.double.shortest_stripped rank).strip_eq]
  have hsource : (Binary.finite negative rank : Double).abs.expansion.compare
      (Exact.ofMagnitude false (BinaryFormat.double.shortest rank)) =
        compare (BinaryFormat.double.value rank) (BinaryFormat.double.shortest rank).value := by
    rw [Exact.compare_eq, Exact.value_ofMagnitude]
    congr 1
    exact Binary.value_expansion_finite rank
  have hrank : Digits.ofRank? negative rank =
      some { (ofMagnitude negative (BinaryFormat.double.shortest rank)).toDigits with
        source := compare (BinaryFormat.double.value rank)
          (BinaryFormat.double.shortest rank).value } := by
    rw [Digits.ofRank?, Binary.plain, Binary.render, hread, Option.map_some]
    dsimp only
    rw [hmagnitude, hsource]
  refine ⟨⟨_, Digits.normal_ofRank? hrank⟩, ?_, rfl, hmagnitude, rfl⟩
  rw [ofRank?, Option.pmap_eq_some_iff]
  exact ⟨_, Digits.normal_ofRank? hrank, hrank, rfl⟩

end Numeral

end Reckoner
