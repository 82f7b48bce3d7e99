import Reckoner.Proofs.PatternGrammar

namespace Reckoner

namespace AffixItem

open Pattern (quote)

/-- A text between quotes is taken apart before it is read: each quote it begins with is an item of
its own, with nothing in it, and the text after these is the last item. -/
theorem exists_items_quoted {text : List Char} (h : ∃ c ∈ text, c ≠ quote) :
    ∃ items, Canonical items ∧ (∀ c, sign c ∉ items) ∧ textOf items = (quoted text).text ∧
      partsOf items = text.map .literal := by
  induction text with
  | nil => simp at h
  | cons c text ih =>
    by_cases hc : c = quote
    · -- the opening quote and the first of the two for `c` are taken together
      subst hc
      have hmore : ∃ c ∈ text, c ≠ quote := by simpa using h
      obtain ⟨items, hcanonical, hsigns, htext, hparts⟩ := ih hmore
      refine ⟨quoted [] :: items, hcanonical, by simpa using hsigns, ?_, ?_⟩
      · rw [textOf_cons, htext]
        rfl
      · rw [List.map_cons, ← hparts]
        rfl
    · exact ⟨[quoted (c :: text)], ⟨hc, by simp, trivial⟩, by simp, List.append_nil _,
        List.append_nil _⟩

theorem allowed_of_quoted {items : List AffixItem} (h : ∀ c, sign c ∉ items)
    (ends : Char → Bool) : Allowed ends items :=
  fun c hc => absurd hc (h c)

theorem scales_of_quoted {items : List AffixItem} (h : ∀ c, sign c ∉ items) :
    scales items = [] := by
  rw [scales, List.filterMap_eq_nil_iff]
  intro item hitem
  cases item with
  | quoted inner => rfl
  | sign c => exact absurd hitem (h c)

theorem partsOf_eq_nil_iff {items : List AffixItem} : partsOf items = [] ↔ items = [] := by
  have hparts (item : AffixItem) : item.parts ≠ [] := by
    match item with
    | quoted [] => simp [parts]
    | quoted (_ :: _) => simp [parts]
    | sign _ => simp [parts]
  rw [partsOf, List.flatMap_eq_nil_iff, List.eq_nil_iff_forall_not_mem]
  exact forall_congr' fun item => forall_congr' fun _ => iff_of_false (hparts item) id

end AffixItem

namespace PatternText

variable {d : PatternText} {before after : List AffixItem}

/-- The number of a pattern with other text around it, and no part for numbers below zero. -/
def around (d : PatternText) (before after : List AffixItem) : PatternText :=
  ⟨{ d.positive with before, after }, none⟩

theorem scales_around (hbefore : ∀ c, .sign c ∉ before) (hafter : ∀ c, .sign c ∉ after) :
    (d.around before after).positive.scales = [] :=
  congrArg₂ (· ++ ·) (AffixItem.scales_of_quoted hbefore) (AffixItem.scales_of_quoted hafter)

theorem WellFormed.around (h : d.WellFormed) (hbefore : ∀ c, .sign c ∉ before)
    (hafter : ∀ c, .sign c ∉ after) : (d.around before after).WellFormed := by
  obtain ⟨_, hwhole, hordered, hdigits, hgroup, hexponent, _⟩ := h.positive
  refine ⟨⟨AffixItem.allowed_of_quoted hbefore _, hwhole, hordered, hdigits, hgroup, hexponent,
    AffixItem.allowed_of_quoted hafter _⟩, nofun, ?_⟩
  rw [scales_around hbefore hafter]
  exact Nat.zero_le 1

/-- A pattern that is only a number is the one with nothing around it. -/
theorem eq_around {source : String} (hbare : (d.pattern source).positive = ⟨[], []⟩)
    (hnone : (d.pattern source).negative = none) : d = d.around [] [] := by
  have hbefore : d.positive.before = [] :=
    AffixItem.partsOf_eq_nil_iff.mp (congrArg Affixes.before hbare)
  have hafter : d.positive.after = [] :=
    AffixItem.partsOf_eq_nil_iff.mp (congrArg Affixes.after hbare)
  have hsingle : d.negative = none := Option.map_eq_none_iff.mp hnone
  obtain ⟨⟨_, _, _, _, _⟩, _⟩ := d
  dsimp only at hbefore hafter hsingle
  subst hbefore hafter hsingle
  rfl

theorem text_around (d : PatternText) (before after : List AffixItem) :
    (d.around before after).text =
      AffixItem.textOf before ++ (d.around [] []).text ++ AffixItem.textOf after := by
  simp only [around, text, SubpatternText.text, AffixItem.textOf, List.flatMap_nil,
    Option.elim_none, List.nil_append, List.append_nil, List.append_assoc]

theorem pattern_around (d : PatternText) (hbefore : ∀ c, .sign c ∉ before)
    (hafter : ∀ c, .sign c ∉ after) (source n : String) :
    (d.around before after).pattern source =
      { (d.around [] []).pattern n with
        source
        positive := (d.around before after).positive.affixes } := by
  simp only [pattern, scales_around hbefore hafter,
    @scales_around d [] [] (fun _ => List.not_mem_nil) fun _ => List.not_mem_nil]
  rfl

end PatternText

/-- Text is written as it is, whatever the locale. -/
theorem renderAffix_literal (symbols : Symbols) (text : List Char) :
    renderAffix symbols (text.map .literal) = text := by
  simp [renderAffix, List.flatMap_map, AffixPart.render]

namespace Pattern

/-- The text between quotes, with each quote in it written twice. -/
def quotedText (s : String) : String :=
  String.ofList (AffixItem.quoted s.toList).text

/-- Any text can stand around a number: between quotes it is taken as it is, and the number is the
one that is written without it. -/
theorem compile_quoted_affixes (s t n : String) (number : Pattern)
    (hs : ∃ c ∈ s.toList, c ≠ quote) (ht : ∃ c ∈ t.toList, c ≠ quote)
    (h : compile n = .ok number) (hbare : number.positive = ⟨[], []⟩)
    (hnone : number.negative = none) :
    ∃ pattern, compile (quotedText s ++ n ++ quotedText t) = .ok pattern ∧
      pattern =
        { number with
          source := quotedText s ++ n ++ quotedText t
          positive := pattern.positive } ∧
      pattern.multiplier = 0 ∧ pattern.negative = none ∧
      ∀ symbols, renderAffix symbols pattern.positive.before = s.toList ∧
        renderAffix symbols pattern.positive.after = t.toList := by
  obtain ⟨d, hd, _, htext, rfl⟩ := PatternText.exists_canonical_of_compile h
  have hnumber := PatternText.eq_around hbare hnone
  obtain ⟨before, hbeforeCanonical, hbefore, hbeforeText, hbeforeParts⟩ :=
    AffixItem.exists_items_quoted hs
  obtain ⟨after, hafterCanonical, hafter, hafterText, hafterParts⟩ :=
    AffixItem.exists_items_quoted ht
  have haround : (d.around before after).text = (quotedText s ++ n ++ quotedText t).toList := by
    rw [PatternText.text_around, ← hnumber, htext, hbeforeText, hafterText]
    simp only [quotedText, String.toList_append, String.toList_ofList]
  obtain ⟨pattern, hcompile, _, _, hpattern⟩ :=
    PatternText.compile_text (hd.around hbefore hafter) haround
  obtain rfl := hpattern ⟨⟨hbeforeCanonical, hafterCanonical⟩, nofun⟩
  refine ⟨_, hcompile, ?_, ?_, rfl, fun symbols => ⟨?_, ?_⟩⟩
  · have hfields := d.pattern_around hbefore hafter (quotedText s ++ n ++ quotedText t) n
    rwa [← hnumber] at hfields
  · exact congrArg (List.headD · 0) (PatternText.scales_around hbefore hafter)
  · change renderAffix symbols (AffixItem.partsOf before) = _
    rw [hbeforeParts, renderAffix_literal]
  · change renderAffix symbols (AffixItem.partsOf after) = _
    rw [hafterParts, renderAffix_literal]

/-- Quotes at either end of a text, and signs that would mean something outside quotes. -/
theorem compile_quoted_affixes_signs :
    ∃ pattern, compile "'''''%;'#,##0.0E0'\u00A4'''" = .ok pattern ∧
      pattern.multiplier = 0 ∧ pattern.groupSize = 3 ∧ pattern.exponentDigits = some 1 ∧
      ∀ symbols, renderAffix symbols pattern.positive.before = "''%;".toList ∧
        renderAffix symbols pattern.positive.after = "\u00A4'".toList := by
  have hbefore : ∃ c ∈ "''%;".toList, c ≠ quote := ⟨'%', by decide, by decide⟩
  have hafter : ∃ c ∈ "\u00A4'".toList, c ≠ quote := ⟨'\u00A4', by decide, by decide⟩
  obtain ⟨pattern, hcompile, hfields, hmultiplier, _, hrender⟩ :=
    compile_quoted_affixes "''%;" "\u00A4'" "#,##0.0E0" _ hbefore hafter rfl rfl rfl
  exact ⟨pattern, hcompile, hmultiplier, congrArg Pattern.groupSize hfields,
    congrArg Pattern.exponentDigits hfields, hrender⟩

end Pattern

end Reckoner
