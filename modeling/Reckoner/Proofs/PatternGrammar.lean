import Reckoner.Proofs.PatternScanning

namespace Reckoner

open Pattern

/-- How one part of a pattern is written. -/
structure SubpatternText where
  before : List AffixItem
  whole : List Char
  fraction : Option FractionPart
  exponent : Option ℕ
  after : List AffixItem

namespace SubpatternText

def pointText (fraction : Option FractionPart) : List Char :=
  fraction.elim [] ('.' :: ·.text)

def powerText (exponent : Option ℕ) : List Char :=
  exponent.elim [] ('E' :: List.replicate · '0')

def text (s : SubpatternText) : List Char :=
  AffixItem.textOf s.before ++ (s.whole ++ (pointText s.fraction ++ (powerText s.exponent ++
    AffixItem.textOf s.after)))

def affixes (s : SubpatternText) : Affixes :=
  ⟨AffixItem.partsOf s.before, AffixItem.partsOf s.after⟩

def scales (s : SubpatternText) : List ℕ :=
  AffixItem.scales s.before ++ AffixItem.scales s.after

def zeros (s : SubpatternText) : ℕ :=
  s.fraction.elim 0 FractionPart.zeros

def hashes (s : SubpatternText) : ℕ :=
  s.fraction.elim 0 FractionPart.hashes

structure WellFormed (s : SubpatternText) : Prop where
  before : AffixItem.Allowed endsPrefix s.before
  whole : ∀ c ∈ s.whole, IsWholeSign c
  ordered : IsOrdered s.whole
  digits : 0 < s.whole.count '0' + s.whole.count '#' + s.zeros + s.hashes
  group : ',' ∈ s.whole → lastGroup s.whole ≠ []
  exponent : ∀ zeros ∈ s.exponent, 0 < zeros
  after : AffixItem.Allowed endsSuffix s.after

def Canonical (s : SubpatternText) : Prop :=
  AffixItem.Canonical s.before ∧ AffixItem.Canonical s.after

/-- The part that is read, with the affixes that are read. -/
def subpattern (s : SubpatternText) (affixes : Affixes) : Subpattern :=
  ⟨affixes, IntegerPart.extend ⟨0, 0, none⟩ s.whole, s.fraction, s.exponent⟩

variable {s : SubpatternText} {rest : List Char}

theorem fault?_subpattern (s : SubpatternText) (affixes : Affixes) :
    (s.subpattern affixes).fault? = none ↔
      0 < s.whole.count '0' + s.whole.count '#' + s.zeros + s.hashes ∧
      (',' ∈ s.whole → lastGroup s.whole ≠ []) ∧ ∀ zeros ∈ s.exponent, 0 < zeros := by
  have hdigits : (s.subpattern affixes).integer.zeros + (s.subpattern affixes).integer.hashes +
      (s.subpattern affixes).fractionZeros + (s.subpattern affixes).fractionHashes =
      s.whole.count '0' + s.whole.count '#' + s.zeros + s.hashes := by
    simp [subpattern, IntegerPart.extend, Subpattern.fractionZeros, Subpattern.fractionHashes,
      zeros, hashes]
  have hgroup : (s.subpattern affixes).integer.group = some 0 ↔
      ',' ∈ s.whole ∧ lastGroup s.whole = [] := by
    by_cases hmem : ',' ∈ s.whole <;> simp [subpattern, IntegerPart.extend, hmem]
  have hexponent : (s.subpattern affixes).exponent = some 0 ↔ ¬∀ zeros ∈ s.exponent, 0 < zeros := by
    cases hs : s.exponent <;> simp [subpattern, hs]
  unfold Subpattern.fault?
  rw [hdigits]
  split
  · rename_i hnone
    simp [hnone]
  · rename_i hsome
    rw [if_congr hgroup rfl rfl, if_congr hexponent rfl rfl]
    by_cases hempty : ',' ∈ s.whole ∧ lastGroup s.whole = []
    · simp [hempty]
    · rw [if_neg hempty]
      by_cases hzeros : ∀ zeros ∈ s.exponent, 0 < zeros
      · rw [if_neg (not_not.mpr hzeros)]
        exact iff_of_true rfl ⟨by omega, fun hmem hnil => hempty ⟨hmem, hnil⟩, hzeros⟩
      · rw [if_pos hzeros]
        exact iff_of_false (by simp) fun h => hzeros h.2.2

/-- A text at which a number ends and a suffix, a further part or nothing follows. -/
def SuffixStarts (rest : List Char) : Prop :=
  ∀ c ∈ rest.head?, c = ';' ∨ endsSuffix c = false

theorem suffixStarts (h : AffixItem.Allowed endsSuffix s.after)
    (hrest : ∀ c ∈ rest.head?, c = ';') : SuffixStarts (AffixItem.textOf s.after ++ rest) := by
  intro c hc
  cases hafter : s.after with
  | nil =>
    rw [hafter] at hc
    exact Or.inl (hrest c hc)
  | cons item items =>
    rw [hafter] at hc h
    cases item with
    | quoted inner =>
      obtain rfl : quote = c := Option.some.inj hc
      exact Or.inr rfl
    | sign d =>
      obtain rfl : d = c := Option.some.inj hc
      exact Or.inr (h d List.mem_cons_self).2

theorem SuffixStarts.ne (h : SuffixStarts rest) {c : Char} (hc : c ∈ rest.head?) :
    ¬IsWholeSign c ∧ c ≠ '.' ∧ c ≠ 'E' := by
  have hfree : c ≠ '#' ∧ c ≠ '0' ∧ c ≠ ',' ∧ c ≠ '.' ∧ c ≠ 'E' := by
    rcases h c hc with rfl | hends
    · decide
    · simp only [endsSuffix, List.mem_cons, List.not_mem_nil, or_false, decide_eq_false_iff_not,
        not_or] at hends
      exact ⟨hends.2.2.1, hends.2.1, hends.2.2.2.1, hends.2.2.2.2.1, hends.2.2.2.2.2⟩
  exact ⟨by simp [IsWholeSign, hfree], hfree.2.2.2⟩

theorem SuffixStarts.readPower (h : SuffixStarts rest) (exponent : Option ℕ) :
    Pattern.readPower (powerText exponent ++ rest) = (exponent, rest) := by
  cases exponent with
  | none =>
    rw [powerText, Option.elim_none, List.nil_append, Pattern.readPower]
    rintro tail rfl
    exact (h.ne rfl).2.2 rfl
  | some count =>
    have hstop : rest.takeWhile (· == '0') = [] ∧ rest.dropWhile (· == '0') = rest := by
      cases rest with
      | nil => exact ⟨rfl, rfl⟩
      | cons c tail =>
        have hc : c ≠ '0' := fun hc => (h.ne rfl).1 (Or.inr (Or.inl hc))
        simp [hc]
    have hzeros : ∀ c ∈ List.replicate count '0', (c == '0') = true := by simp
    rw [powerText, Option.elim_some, List.cons_append, Pattern.readPower,
      List.takeWhile_append_of_pos hzeros, List.dropWhile_append_of_pos hzeros, hstop.1, hstop.2]
    simp

theorem SuffixStarts.digitsEnd (h : SuffixStarts rest) (exponent : Option ℕ) :
    DigitsEnd (powerText exponent ++ rest) := by
  intro c hc
  cases exponent with
  | none =>
    have hne := h.ne hc
    exact ⟨hne.1, hne.2.1⟩
  | some count =>
    obtain rfl : 'E' = c := Option.some.inj hc
    exact ⟨by simp [IsWholeSign], by decide⟩

theorem readPoint_pointText (h : DigitsEnd rest) (fraction : Option FractionPart) :
    readPoint (pointText fraction ++ rest) = .ok (fraction, rest) := by
  cases fraction with
  | none =>
    rw [pointText, Option.elim_none, List.nil_append, readPoint]
    · rfl
    · rintro tail rfl
      exact (h '.' rfl).2 rfl
  | some part =>
    rw [pointText, Option.elim_some, List.cons_append, readPoint, readFraction_text h]
    rfl

theorem not_isWholeSign_of_pointText (h : DigitsEnd rest) (fraction : Option FractionPart) :
    ∀ c ∈ (pointText fraction ++ rest).head?, ¬IsWholeSign c := by
  intro c hc
  cases fraction with
  | none => exact (h c hc).1
  | some part =>
    obtain rfl : '.' = c := Option.some.inj hc
    simp [IsWholeSign]

/-- A number has a digit, so it begins with a sign that ends a prefix. -/
theorem WellFormed.affixEnds (h : s.WellFormed) (rest : List Char) :
    AffixEnds endsPrefix (s.whole ++ (pointText s.fraction ++ rest)) := by
  intro c hc
  cases hwhole : s.whole with
  | cons d word =>
    rw [hwhole] at hc
    obtain rfl : d = c := Option.some.inj hc
    rcases h.whole d (by rw [hwhole]; exact List.mem_cons_self) with rfl | rfl | rfl <;> decide
  | nil =>
    rw [hwhole, List.nil_append] at hc
    cases hfraction : s.fraction with
    | none =>
      have hdigits := h.digits
      simp [hwhole, zeros, hashes, hfraction] at hdigits
    | some part =>
      rw [hfraction] at hc
      obtain rfl : '.' = c := Option.some.inj hc
      decide

/-- A part is read as it is written; how quotes are taken only shows in the affixes. -/
theorem readSubpattern_text (h : s.WellFormed) (hrest : ∀ c ∈ rest.head?, c = ';') :
    ∃ affixes : Affixes, readSubpattern (s.text ++ rest) = .ok (s.subpattern affixes, rest) ∧
      (s.subpattern affixes).multipliers = s.scales ∧ (s.Canonical → affixes = s.affixes) := by
  have hsuffix := suffixStarts h.after hrest
  have hdigits := hsuffix.digitsEnd s.exponent
  have hends : AffixEnds endsSuffix rest := by
    intro c hc
    rw [hrest c hc]
    decide
  obtain ⟨before, hbefore, hbeforeScales, hbeforeParts⟩ := (readsItems h.before
    (h.affixEnds (powerText s.exponent ++ (AffixItem.textOf s.after ++ rest)))).outside
  obtain ⟨after, hafter, hafterScales, hafterParts⟩ := (readsItems h.after hends).outside
  refine ⟨⟨before, after⟩, ?_, ?_, fun hcanonical => ?_⟩
  · have hnone : (⟨0, 0, none⟩ : IntegerPart).zeros = 0 := rfl
    have hinteger := readInteger_append h.whole h.ordered (Or.inl hnone)
      (not_isWholeSign_of_pointText hdigits s.fraction)
    have hchecked : checked (s.subpattern ⟨before, after⟩) rest =
        .ok (s.subpattern ⟨before, after⟩, rest) :=
      checked_ok_iff.mpr ⟨rfl, rfl, (s.fault?_subpattern _).mpr ⟨h.digits, h.group, h.exponent⟩,
        hrest⟩
    rw [readSubpattern_eq, text]
    simp only [List.append_assoc, hbefore, bind, Except.bind, hinteger,
      readPoint_pointText hdigits, hsuffix.readPower, hafter]
    exact hchecked
  · rw [Subpattern.multipliers, List.filterMap_append]
    exact congrArg₂ (· ++ ·) hbeforeScales hafterScales
  · rw [affixes, hbeforeParts hcanonical.1, hafterParts hcanonical.2]

theorem exists_powerText (text : List Char) :
    text = powerText (Pattern.readPower text).1 ++ (Pattern.readPower text).2 := by
  unfold Pattern.readPower
  split
  · rename_i rest
    have hzeros : rest.takeWhile (· == '0') =
        List.replicate (rest.takeWhile (· == '0')).length '0' :=
      List.eq_replicate_of_mem fun c hc => by simpa using List.mem_takeWhile_imp hc
    rw [powerText, Option.elim_some, ← hzeros, List.cons_append, List.takeWhile_append_dropWhile]
  · rfl

theorem exists_pointText {text : List Char} {fraction : Option FractionPart}
    (h : readPoint text = .ok (fraction, rest)) : text = pointText fraction ++ rest := by
  unfold readPoint at h
  split at h
  · rename_i text
    obtain ⟨⟨part, left⟩, hread, hok⟩ := bind_eq_ok.mp h
    simp only [pure, Except.pure, Except.ok.injEq, Prod.mk.injEq] at hok
    obtain ⟨rfl, rfl⟩ := hok
    obtain ⟨more, rfl, _, hrest⟩ := exists_text_of_readFraction hread
    rw [readFraction_text hrest] at hread
    simp only [Except.ok.injEq, Prod.mk.injEq, and_true] at hread
    rw [hread]
    rfl
  · simp only [pure, Except.pure, Except.ok.injEq, Prod.mk.injEq] at h
    obtain ⟨rfl, rfl⟩ := h
    rfl

/-- What is read as a part is one. -/
theorem exists_text_of_readSubpattern {text : List Char} {sub : Subpattern}
    (h : readSubpattern text = .ok (sub, rest)) :
    ∃ s : SubpatternText, s.WellFormed ∧ s.Canonical ∧ text = s.text ++ rest ∧
      ∀ c ∈ rest.head?, c = ';' := by
  rw [readSubpattern_eq] at h
  obtain ⟨⟨before, text₁⟩, hbefore, h⟩ := bind_eq_ok.mp h
  obtain ⟨⟨integer, text₂⟩, hinteger, h⟩ := bind_eq_ok.mp h
  obtain ⟨⟨fraction, text₃⟩, hfraction, h⟩ := bind_eq_ok.mp h
  obtain ⟨⟨after, text₄⟩, hafter, h⟩ := bind_eq_ok.mp h
  obtain ⟨hsub, rfl, hfault, hrest⟩ := checked_ok_iff.mp h
  obtain ⟨⟨beforeItems, hbeforeAllowed, hbeforeCanonical, hbeforeText⟩, _⟩ :=
    writtenItems_of_readAffix hbefore
  obtain ⟨⟨afterItems, hafterAllowed, hafterCanonical, hafterText⟩, _⟩ :=
    writtenItems_of_readAffix hafter
  obtain ⟨word, rfl, hword, hordered, _, hend⟩ := exists_word_of_readInteger hinteger
  rw [readInteger_append hword hordered (Or.inl rfl) hend] at hinteger
  simp only [Except.ok.injEq, Prod.mk.injEq, and_true] at hinteger
  let s : SubpatternText := ⟨beforeItems, word, fraction, (readPower text₃).1, afterItems⟩
  have hsame : sub = s.subpattern ⟨before, after⟩ := by rw [← hsub, ← hinteger]; rfl
  have hfaults := (s.fault?_subpattern ⟨before, after⟩).mp (by rw [← hsame, ← hsub]; exact hfault)
  refine ⟨s, ⟨hbeforeAllowed, hword, hordered, hfaults.1, hfaults.2.1, hfaults.2.2, hafterAllowed⟩,
    ⟨hbeforeCanonical, hafterCanonical⟩, ?_, hrest⟩
  dsimp only at hbeforeText hafterText
  rw [hbeforeText, exists_pointText hfraction, exists_powerText text₃, hafterText,
    SubpatternText.text]
  simp only [s, List.append_assoc]

end SubpatternText

/-- How a pattern is written: one part, or two with a separator between them. -/
structure PatternText where
  positive : SubpatternText
  negative : Option SubpatternText

namespace PatternText

def text (d : PatternText) : List Char :=
  d.positive.text ++ d.negative.elim [] (';' :: ·.text)

/-- The first part may scale the number only once. -/
structure WellFormed (d : PatternText) : Prop where
  positive : d.positive.WellFormed
  negative : ∀ s ∈ d.negative, s.WellFormed
  scales : d.positive.scales.length ≤ 1

def Canonical (d : PatternText) : Prop :=
  d.positive.Canonical ∧ ∀ s ∈ d.negative, s.Canonical

/-- The pattern that is written: the numbers are the counts of the first part. -/
def pattern (d : PatternText) (source : String) : Pattern where
  source
  positive := d.positive.affixes
  negative := d.negative.map SubpatternText.affixes
  minInteger := d.positive.whole.count '0'
  maxInteger := d.positive.whole.count '0' + d.positive.whole.count '#'
  minFraction := d.positive.zeros
  maxFraction := d.positive.zeros + d.positive.hashes
  groupSize := if ',' ∈ d.positive.whole then (lastGroup d.positive.whole).length else 0
  alwaysPoint := d.positive.fraction.isSome && d.positive.zeros + d.positive.hashes == 0
  exponentDigits := d.positive.exponent
  multiplier := d.positive.scales.headD 0

theorem readNegative_text {negative : Option SubpatternText}
    (h : ∀ s ∈ negative, s.WellFormed) :
    ∃ affixes : Option Affixes, readNegative (negative.elim [] (';' :: ·.text)) = .ok affixes ∧
      affixes.isSome = negative.isSome ∧
      ((∀ s ∈ negative, s.Canonical) → affixes = negative.map SubpatternText.affixes) := by
  cases negative with
  | none => exact ⟨none, rfl, rfl, fun _ => rfl⟩
  | some s =>
    have hnil : ∀ c ∈ ([] : List Char).head?, c = ';' := by simp
    obtain ⟨affixes, hread, _, hparts⟩ := SubpatternText.readSubpattern_text (h s rfl) hnil
    rw [List.append_nil] at hread
    refine ⟨some affixes, ?_, rfl, fun hcanonical => by rw [hparts (hcanonical s rfl)]; rfl⟩
    rw [Option.elim_some, readNegative, hread]
    rfl

theorem compiled_subpattern {d : PatternText} {affixes : Affixes}
    (h : (d.positive.subpattern affixes).multipliers = d.positive.scales) (source : String)
    (negative : Option Affixes) :
    (d.positive.subpattern affixes).compiled source negative =
      { d.pattern source with positive := affixes, negative } := by
  have hgroup : (d.positive.subpattern affixes).integer.group.getD 0 =
      if ',' ∈ d.positive.whole then (lastGroup d.positive.whole).length else 0 := by
    by_cases hmem : ',' ∈ d.positive.whole <;>
      simp [SubpatternText.subpattern, IntegerPart.extend, hmem]
  rw [Subpattern.compiled, hgroup, h]
  simp [pattern, SubpatternText.subpattern, IntegerPart.extend, Subpattern.fractionZeros,
    Subpattern.fractionHashes, SubpatternText.zeros, SubpatternText.hashes]

/-- A pattern is compiled to what is written; how quotes are taken only shows in the affixes. -/
theorem compile_text {d : PatternText} {source : String} (h : d.WellFormed)
    (htext : d.text = source.toList) :
    ∃ p, Pattern.compile source = .ok p ∧
      p = { d.pattern source with positive := p.positive, negative := p.negative } ∧
      p.negative.isSome = d.negative.isSome ∧ (d.Canonical → p = d.pattern source) := by
  have hrest : ∀ c ∈ (d.negative.elim [] (';' :: SubpatternText.text ·)).head?, c = ';' := by
    cases d.negative with
    | none => simp
    | some s =>
      rintro _ ⟨⟩
      rfl
  obtain ⟨affixes, hpositive, hscales, hparts⟩ :=
    SubpatternText.readSubpattern_text h.positive hrest
  obtain ⟨negative, hnegative, hsome, hnegativeParts⟩ := readNegative_text h.negative
  refine ⟨{ d.pattern source with positive := affixes, negative }, ?_, rfl, hsome,
    fun hcanonical => ?_⟩
  · rw [Pattern.compile_ok, Pattern.read_ok_iff]
    refine ⟨_, _, negative, htext ▸ hpositive, hnegative, ?_,
      (compiled_subpattern hscales source negative).symm⟩
    rw [hscales]
    exact h.scales
  · rw [hparts hcanonical.1, hnegativeParts hcanonical.2]
    rfl

/-- What is compiled is written by the grammar. -/
theorem exists_text_of_compile {source : String} {p : Pattern}
    (h : Pattern.compile source = .ok p) :
    ∃ d : PatternText, d.WellFormed ∧ d.Canonical ∧ d.text = source.toList := by
  rw [Pattern.compile_ok, Pattern.read_ok_iff] at h
  obtain ⟨positive, rest, negative, hpositive, hnegative, hscales, rfl⟩ := h
  obtain ⟨s, hs, hcanonical, htext, hrest⟩ :=
    SubpatternText.exists_text_of_readSubpattern hpositive
  obtain ⟨affixes, hread, hsame, _⟩ := SubpatternText.readSubpattern_text hs hrest
  rw [← htext, hpositive] at hread
  simp only [Except.ok.injEq, Prod.mk.injEq, and_true] at hread
  rw [hread, hsame] at hscales
  cases rest with
  | nil =>
    refine ⟨⟨s, none⟩, ⟨hs, by simp, hscales⟩, ⟨hcanonical, by simp⟩, ?_⟩
    rw [htext]
    rfl
  | cons c rest =>
    obtain rfl : c = ';' := hrest c rfl
    obtain ⟨⟨sub, left⟩, hsub, hleft⟩ := bind_eq_ok.mp hnegative
    dsimp only at hleft
    split at hleft
    · rename_i hnil
      rw [List.isEmpty_iff] at hnil
      subst hnil
      obtain ⟨t, ht, htCanonical, htText, _⟩ := SubpatternText.exists_text_of_readSubpattern hsub
      refine ⟨⟨s, some t⟩, ⟨hs, by simpa using ht, hscales⟩,
        ⟨hcanonical, by simpa using htCanonical⟩, ?_⟩
      rw [htext, htText, List.append_nil]
      rfl
    · simp at hleft

/-- A compiled pattern is the one that is written in the grammar, its affixes included. -/
theorem exists_canonical_of_compile {source : String} {p : Pattern}
    (h : Pattern.compile source = .ok p) :
    ∃ d : PatternText, d.WellFormed ∧ d.Canonical ∧ d.text = source.toList ∧
      p = d.pattern source := by
  obtain ⟨d, hd, hcanonical, htext⟩ := exists_text_of_compile h
  obtain ⟨q, hq, _, _, hpattern⟩ := compile_text hd htext
  obtain rfl : p = q := Except.ok.inj (h.symm.trans hq)
  exact ⟨d, hd, hcanonical, htext, hpattern hcanonical⟩

/-- The patterns that compile are the texts of the grammar, and what they compile to is counted from
any of the ways in which they can be written; the way that takes quotes as soon as it can gives the
affixes too. -/
theorem compile_iff_grammar (source : String) :
    ((∃ p, Pattern.compile source = .ok p) ↔
      ∃ d : PatternText, d.WellFormed ∧ d.text = source.toList) ∧
    ∀ p, Pattern.compile source = .ok p →
      (∀ d : PatternText, d.WellFormed → d.text = source.toList →
        p = { d.pattern source with positive := p.positive, negative := p.negative } ∧
        p.negative.isSome = d.negative.isSome) ∧
      ∃ d : PatternText, d.WellFormed ∧ d.Canonical ∧ d.text = source.toList ∧
        p = d.pattern source := by
  refine ⟨⟨fun ⟨p, hp⟩ => ?_, fun ⟨d, hd, htext⟩ => ?_⟩, fun p hp => ⟨fun d hd htext => ?_, ?_⟩⟩
  · obtain ⟨d, hd, _, htext⟩ := exists_text_of_compile hp
    exact ⟨d, hd, htext⟩
  · obtain ⟨p, hp, _⟩ := compile_text hd htext
    exact ⟨p, hp⟩
  · obtain ⟨q, hq, hfields, hsome, _⟩ := compile_text hd htext
    rw [hp, Except.ok.injEq] at hq
    subst hq
    exact ⟨hfields, hsome⟩
  · obtain ⟨d, hd, hcanonical, htext⟩ := exists_text_of_compile hp
    obtain ⟨q, hq, _, _, hpattern⟩ := compile_text hd htext
    rw [hp, Except.ok.injEq] at hq
    subst hq
    exact ⟨d, hd, hcanonical, htext, hpattern hcanonical⟩

/-- A sign in quotes is text, also if it could be one of the number. -/
theorem compile_iff_grammar_quoted :
    ∃ d : PatternText, d.WellFormed ∧ d.Canonical ∧ d.text = "'#'#,##0.0#%;(0)".toList ∧
      ∃ p, Pattern.compile "'#'#,##0.0#%;(0)" = .ok p ∧
        p = { d.pattern "'#'#,##0.0#%;(0)" with positive := p.positive, negative := p.negative } ∧
        p.groupSize = 3 ∧ p.multiplier = 2 := by
  let positive : SubpatternText :=
    ⟨[.quoted ['#']], ['#', ',', '#', '#', '0'], some ⟨1, 1⟩, none, [.sign '%']⟩
  let negative : SubpatternText := ⟨[.sign '('], ['0'], none, none, [.sign ')']⟩
  let d : PatternText := ⟨positive, some negative⟩
  have hpositive : positive.WellFormed := by
    refine ⟨?_, by simp [positive, IsWholeSign], by unfold IsOrdered; decide, by decide,
      by decide, by decide, ?_⟩
    · simp [positive, AffixItem.Allowed]
    · simp only [positive, AffixItem.Allowed, List.mem_singleton, AffixItem.sign.injEq, forall_eq]
      decide
  have hnegative : negative.WellFormed := by
    refine ⟨?_, by simp [negative, IsWholeSign], by unfold IsOrdered; decide, by decide,
      by decide, by decide, ?_⟩ <;>
    · simp only [negative, AffixItem.Allowed, List.mem_singleton, AffixItem.sign.injEq, forall_eq]
      decide
  have hd : d.WellFormed := ⟨hpositive, by simpa [d] using hnegative, by decide⟩
  have hcanonical : d.Canonical := by
    simp [d, positive, negative, Canonical, SubpatternText.Canonical, AffixItem.Canonical, quote]
  have htext : d.text = "'#'#,##0.0#%;(0)".toList := by decide
  obtain ⟨p, hp⟩ := (compile_iff_grammar "'#'#,##0.0#%;(0)").1.mpr ⟨d, hd, htext⟩
  have hfields := (((compile_iff_grammar "'#'#,##0.0#%;(0)").2 p hp).1 d hd htext).1
  have hsize : (d.pattern "'#'#,##0.0#%;(0)").groupSize = 3 := by decide
  have hscale : (d.pattern "'#'#,##0.0#%;(0)").multiplier = 2 := by decide
  exact ⟨d, hd, hcanonical, htext, p, hp, hfields, by rw [hfields]; exact hsize,
    by rw [hfields]; exact hscale⟩

end PatternText

end Reckoner
