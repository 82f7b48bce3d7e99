import Reckoner.Proofs.PatternGrammar

namespace Reckoner

/-- All that is written around a number. -/
def Affixes.parts (a : Affixes) : List AffixPart :=
  a.before ++ a.after

namespace Pattern

/-- All that is written around numbers above and below zero. -/
def parts (p : Pattern) : List AffixPart :=
  p.positive.parts ++ p.negative.elim [] Affixes.parts

/-- The characters of a pattern that are not quotes, each with whether it stands between quotes. A
quote that is written twice opens and closes at once. -/
def signs (quoted : Bool) : List Char → List (Bool × Char)
  | [] => []
  | c :: rest => if c = quote then signs (!quoted) rest else (quoted, c) :: signs quoted rest

/-- What a sign of an affix is compiled to. -/
def signPart : Bool × Char → AffixPart
  | (true, c) => .literal c
  | (false, c) => partOf c

theorem partOf_of_ne {c : Char} (h : c ≠ Locale.currencySign) :
    partOf c ≠ .currency ∧ partOf c ≠ .literal Locale.currencySign := by
  unfold partOf
  split_ifs <;> simp [h]

theorem signPart_currency_iff (quoted : Bool) (s : Bool × Char) :
    signPart s = signPart (quoted, Locale.currencySign) ↔ s = (quoted, Locale.currencySign) := by
  constructor
  · intro h
    obtain ⟨inside, c⟩ := s
    have hcurrency : partOf Locale.currencySign = .currency := rfl
    by_cases hc : c = Locale.currencySign
    · subst hc
      cases inside <;> cases quoted <;> simp_all [signPart]
    · cases inside with
      | true => cases quoted <;> simp_all [signPart]
      | false =>
        obtain ⟨hne, hliteral⟩ := partOf_of_ne hc
        cases quoted with
        | true => exact absurd h hliteral
        | false => exact absurd h hne
  · rintro rfl
    rfl

theorem count_map_signPart (quoted : Bool) (l : List (Bool × Char)) :
    (l.map signPart).count (signPart (quoted, Locale.currencySign)) =
      l.count (quoted, Locale.currencySign) := by
  rw [List.count_eq_countP, List.count_eq_countP, List.countP_map]
  refine List.countP_congr fun sign _ => ?_
  simp only [Function.comp_apply, beq_iff_eq, signPart_currency_iff]

/-- A text without quotes has its own characters as signs. -/
theorem signs_append {word : List Char} (h : quote ∉ word) (quoted : Bool) (rest : List Char) :
    signs quoted (word ++ rest) = word.map (quoted, ·) ++ signs quoted rest := by
  induction word with
  | nil => rfl
  | cons c word ih =>
    rw [List.mem_cons, not_or] at h
    rw [List.cons_append, signs, if_neg (Ne.symm h.1), ih h.2]
    rfl

theorem signs_escaped (inner rest : List Char) :
    signs true (AffixItem.escaped inner ++ rest) =
      (inner.filter (· ≠ quote)).map (true, ·) ++ signs true rest := by
  induction inner with
  | nil => rfl
  | cons c inner ih =>
    by_cases hc : c = quote
    · subst hc
      change signs true (AffixItem.escaped inner ++ rest) = _
      rw [ih]
      rfl
    · rw [AffixItem.escaped_cons hc, List.cons_append, signs, if_neg hc, ih,
        List.filter_cons_of_pos (by simpa using hc)]
      rfl

/-- The parts of an affix are its signs, and what is written for a quote. -/
theorem signPart_textOf {ends : Char → Bool} {items : List AffixItem}
    (h : AffixItem.Allowed ends items) (rest : List Char) :
    (signs false (AffixItem.textOf items ++ rest)).map signPart =
      (AffixItem.partsOf items).filter (· ≠ .literal quote) ++ (signs false rest).map signPart := by
  induction items with
  | nil => rfl
  | cons item items ih =>
    have hparts : AffixItem.partsOf (item :: items) = item.parts ++ AffixItem.partsOf items := rfl
    rw [hparts, List.filter_append, List.append_assoc, ← ih h.tail]
    cases item with
    | quoted inner =>
      have hinner : (inner.filter (· ≠ quote)).map AffixPart.literal =
          (AffixItem.quoted inner).parts.filter (· ≠ .literal quote) := by
        cases inner with
        | nil => rfl
        | cons c inner =>
          change _ = ((c :: inner).map AffixPart.literal).filter _
          rw [List.filter_map]
          simp [Function.comp_def]
      rw [AffixItem.textOf_quoted, signs, if_pos rfl, Bool.not_false, signs_escaped, signs,
        if_pos rfl, List.map_append, List.map_map, ← hinner]
      rfl
    | sign c =>
      have hc : c ≠ quote := (h c List.mem_cons_self).1
      have hpart : partOf c ≠ .literal quote := by
        unfold partOf
        split_ifs <;> simp_all
      change (signs false (c :: (AffixItem.textOf items ++ rest))).map signPart = _
      rw [signs, if_neg hc, AffixItem.parts, List.filter_cons_of_pos (by simpa using hpart)]
      rfl

/-- The currency signs of an affix are its currency parts. -/
theorem count_textOf {ends : Char → Bool} {items : List AffixItem}
    (h : AffixItem.Allowed ends items) (quoted : Bool) (rest : List Char) :
    (signs false (AffixItem.textOf items ++ rest)).count (quoted, Locale.currencySign) =
      (AffixItem.partsOf items).count (signPart (quoted, Locale.currencySign)) +
        (signs false rest).count (quoted, Locale.currencySign) := by
  have hliteral : signPart (quoted, Locale.currencySign) ≠ .literal quote := by
    cases quoted <;> decide
  rw [← count_map_signPart, signPart_textOf h, List.count_append,
    List.count_filter (by simpa using hliteral), count_map_signPart]

end Pattern

namespace SubpatternText

open Pattern

variable {s : SubpatternText}

/-- The signs of a number are no quotes and no currency signs. -/
theorem WellFormed.number (h : s.WellFormed) :
    ∀ c ∈ s.whole ++ (pointText s.fraction ++ powerText s.exponent),
      c ≠ quote ∧ c ≠ Locale.currencySign := by
  have hsigns : ∀ c ∈ s.whole ++ (pointText s.fraction ++ powerText s.exponent),
      c ∈ ['#', '0', ',', '.', 'E'] := by
    intro c hc
    rw [List.mem_append, List.mem_append] at hc
    rcases hc with hc | hc | hc
    · rcases h.whole c hc with rfl | rfl | rfl <;> simp
    · cases hfraction : s.fraction with
      | none => simp [hfraction, pointText] at hc
      | some part =>
        simp only [hfraction, pointText, Option.elim_some, FractionPart.text, List.mem_cons,
          List.mem_append, List.mem_replicate] at hc
        rcases hc with rfl | ⟨-, rfl⟩ | ⟨-, rfl⟩ <;> simp
    · cases hexponent : s.exponent with
      | none => simp [hexponent, powerText] at hc
      | some count =>
        simp only [hexponent, powerText, Option.elim_some, List.mem_cons,
          List.mem_replicate] at hc
        rcases hc with rfl | ⟨-, rfl⟩ <;> simp
  intro c hc
  have hsign := hsigns c hc
  simp only [List.mem_cons, List.not_mem_nil, or_false] at hsign
  rcases hsign with rfl | rfl | rfl | rfl | rfl <;> decide

/-- Each currency sign of a text is one of the affixes. -/
theorem WellFormed.count_currency (h : s.WellFormed) (quoted : Bool) (rest : List Char) :
    (signs false (s.text ++ rest)).count (quoted, Locale.currencySign) =
      s.affixes.parts.count (signPart (quoted, Locale.currencySign)) +
        (signs false rest).count (quoted, Locale.currencySign) := by
  have hnumber : quote ∉ s.whole ++ (pointText s.fraction ++ powerText s.exponent) :=
    fun hc => (h.number quote hc).1 rfl
  have hfree : ((s.whole ++ (pointText s.fraction ++ powerText s.exponent)).map
      (false, ·)).count (quoted, Locale.currencySign) = 0 := by
    rw [List.count_eq_zero]
    intro hmem
    obtain ⟨c, hc, heq⟩ := List.mem_map.mp hmem
    exact (h.number c hc).2 (Prod.mk.inj heq).2
  have htext : s.text ++ rest = AffixItem.textOf s.before ++
      ((s.whole ++ (pointText s.fraction ++ powerText s.exponent)) ++
        (AffixItem.textOf s.after ++ rest)) := by
    simp only [text, List.append_assoc]
  rw [htext, count_textOf h.before, signs_append hnumber, List.count_append, hfree,
    count_textOf h.after, Nat.zero_add, ← Nat.add_assoc, ← List.count_append]
  rfl

end SubpatternText

/-- The currency signs of a pattern: one outside quotes stands for the currency, one between quotes
for itself, and there are no others. -/
theorem Pattern.count_currency {source : String} {p : Pattern}
    (h : Pattern.compile source = .ok p) (quoted : Bool) :
    p.parts.count (signPart (quoted, Locale.currencySign)) =
      (signs false source.toList).count (quoted, Locale.currencySign) := by
  obtain ⟨d, hd, _, htext, rfl⟩ := PatternText.exists_canonical_of_compile h
  rw [← htext, PatternText.text, hd.positive.count_currency, parts,
    List.count_append]
  refine congrArg _ ?_
  cases hnegative : d.negative with
  | none => simp [PatternText.pattern, hnegative, signs]
  | some s =>
    have hs := (hd.negative s hnegative).count_currency quoted []
    rw [List.append_nil] at hs
    have hseparator : signs false (';' :: s.text) = (false, ';') :: signs false s.text := rfl
    have hne : (false, ';') ≠ (quoted, Locale.currencySign) := by
      cases quoted <;> decide
    simp only [PatternText.pattern, hnegative, Option.map_some, Option.elim_some, hseparator]
    rw [List.count_cons_of_ne hne, hs]
    simp [signs]

end Reckoner
