import Reckoner.Proofs.PatternGrammar

namespace Reckoner

namespace Pattern

open SubpatternText

variable {α β : Type} {whole text rest : List Char}

/-- What is left when a reader stops, at a fault or without one, is an end of the text. -/
def StaysIn (whole : List Char) : Except PatternHalt (α × List Char) → Prop
  | .ok (_, rest) => rest <:+ whole
  | .error halt => halt.rest <:+ whole

theorem StaysIn.bind {read : Except PatternHalt (α × List Char)}
    {next : α × List Char → Except PatternHalt (β × List Char)} (h : StaysIn whole read)
    (hnext : ∀ value rest, rest <:+ whole → StaysIn whole (next (value, rest))) :
    StaysIn whole (read >>= next) := by
  match read with
  | .ok (value, rest) => exact hnext value rest h
  | .error halt => exact h

/-- A quote that is not closed is shown where it was opened, which lies before the text that is
read. -/
theorem staysIn_readAffix {ends : Char → Bool} {opened : Option (List Char)}
    (htext : text <:+ whole) (hopened : ∀ start ∈ opened, start <:+ whole) :
    StaysIn whole (readAffix ends opened text) := by
  have htail {c : Char} {more : List Char} (h : c :: more <:+ whole) : more <:+ whole :=
    (List.suffix_cons c more).trans h
  fun_induction readAffix ends opened text with
  | case1 => exact htext
  | case2 start => exact hopened start rfl
  | case3 opened text ih => exact (ih (htail (htail htext)) hopened).bind fun _ _ hrest => hrest
  | case4 text _ ih =>
    refine ih (htail htext) ?_
    rintro _ ⟨⟩
    exact htext
  | case5 start text _ ih => exact ih (htail htext) (by simp)
  | case6 => exact htext
  | case7 c text _ _ _ ih => exact (ih (htail htext) hopened).bind fun _ _ hrest => hrest
  | case8 start c text _ _ ih => exact (ih (htail htext) hopened).bind fun _ _ hrest => hrest

theorem staysIn_readInteger {part : IntegerPart} (htext : text <:+ whole) :
    StaysIn whole (readInteger part text) := by
  fun_induction readInteger part text with
  | case1 => exact htext
  | case2 part text _ ih => exact ih ((List.suffix_cons _ _).trans htext)
  | case3 part text ih => exact ih ((List.suffix_cons _ _).trans htext)
  | case4 part text ih => exact ih ((List.suffix_cons _ _).trans htext)
  | case5 => exact htext

theorem staysIn_readFraction {part : FractionPart} (htext : text <:+ whole) :
    StaysIn whole (readFraction part text) := by
  fun_induction readFraction part text with
  | case1 => exact htext
  | case2 part text _ ih => exact ih ((List.suffix_cons _ _).trans htext)
  | case3 part text ih => exact ih ((List.suffix_cons _ _).trans htext)
  | case4 => exact htext
  | case5 => exact htext
  | case6 => exact htext

theorem staysIn_readPoint (htext : text <:+ whole) : StaysIn whole (readPoint text) := by
  unfold readPoint
  split
  · exact (staysIn_readFraction ((List.suffix_cons _ _).trans htext)).bind fun _ _ hrest => hrest
  · exact htext

theorem staysIn_checked (sub : Subpattern) (htext : text <:+ whole) :
    StaysIn whole (checked sub text) := by
  unfold checked
  split
  · split <;> exact htext
  · split <;> exact htext
  · exact htext

theorem staysIn_readSubpattern (text : List Char) : StaysIn text (readSubpattern text) := by
  rw [readSubpattern_eq]
  refine (staysIn_readAffix List.suffix_rfl (by simp)).bind fun before rest hrest => ?_
  refine (staysIn_readInteger hrest).bind fun integer rest hrest => ?_
  refine (staysIn_readPoint hrest).bind fun fraction rest hrest => ?_
  have hpower : (readPower rest).2 <:+ rest := ⟨_, (exists_powerText rest).symm⟩
  refine (staysIn_readAffix (hpower.trans hrest) (by simp)).bind fun after left hleft => ?_
  exact staysIn_checked _ hleft

/-- A part that is read to the end of a text is read up to a separator behind it: what it ends with,
a quoted text too, is complete without what follows. -/
theorem readSubpattern_append {sub : Subpattern} (h : readSubpattern text = .ok (sub, []))
    (hrest : ∀ c ∈ rest.head?, c = ';') : readSubpattern (text ++ rest) = .ok (sub, rest) := by
  obtain ⟨s, hs, hcanonical, htext, hnil⟩ := exists_text_of_readSubpattern h
  obtain ⟨affixes, hread, _, haffixes⟩ := readSubpattern_text hs hnil
  obtain ⟨joined, hjoined, _, hjoinedAffixes⟩ := readSubpattern_text hs hrest
  rw [← htext, h, haffixes hcanonical] at hread
  rw [hjoinedAffixes hcanonical] at hjoined
  rw [List.append_nil] at htext
  obtain ⟨rfl, -⟩ := Prod.mk.inj (Except.ok.inj hread)
  rw [htext, hjoined]

/-- A pattern without a negative part is a single part. -/
theorem compile_single_iff {source : String} {p : Pattern} :
    (compile source = .ok p ∧ p.negative = none) ↔
      ∃ sub, readSubpattern source.toList = .ok (sub, []) ∧ sub.multipliers.length ≤ 1 ∧
        p = sub.compiled source none := by
  rw [compile_ok, read_ok_iff]
  constructor
  · rintro ⟨⟨sub, rest, negative, hread, hnegative, hscales, rfl⟩, hnone⟩
    obtain rfl : negative = none := hnone
    cases rest with
    | nil => exact ⟨sub, hread, hscales, rfl⟩
    | cons c rest =>
      obtain ⟨⟨other, left⟩, _, hleft⟩ := bind_eq_ok.mp hnegative
      dsimp only at hleft
      split at hleft <;> cases hleft
  · rintro ⟨sub, hread, hscales, rfl⟩
    exact ⟨⟨sub, [], none, hread, rfl, hscales, rfl⟩, rfl⟩

/-- A pattern without a negative part gives all fields of a joined one but that part, which is left
to be read. -/
theorem read_joined {p : String} {pattern : Pattern} (h : compile p = .ok pattern)
    (hnone : pattern.negative = none) (n : String) :
    Pattern.read (p ++ ";" ++ n) = (readNegative (';' :: n.toList)).map fun negative =>
      { pattern with source := p ++ ";" ++ n, negative } := by
  obtain ⟨sub, hread, hscales, rfl⟩ := compile_single_iff.mp ⟨h, hnone⟩
  have htext : (p ++ ";" ++ n).toList = p.toList ++ ';' :: n.toList := by simp
  have hjoined : readSubpattern (p.toList ++ ';' :: n.toList) = .ok (sub, ';' :: n.toList) :=
    readSubpattern_append hread (by simp)
  unfold Pattern.read
  dsimp only
  rw [htext, if_neg (by simp), hjoined]
  simp only [bind, Except.bind, if_neg (Nat.not_lt.mpr hscales)]
  cases readNegative (';' :: n.toList) <;> rfl

/-- Patterns are joined part by part: of the second one only the text around the number is taken, and
what is wrong with it is shown as far behind the separator as it lies in it. -/
theorem compile_joined (p n : String) (pattern : Pattern) (h : compile p = .ok pattern)
    (hnone : pattern.negative = none) :
    (∀ other, compile n = .ok other → other.negative = none →
      compile (p ++ ";" ++ n) =
        .ok { pattern with source := p ++ ";" ++ n, negative := some other.positive }) ∧
    ∀ halt, readSubpattern n.toList = .error halt →
      ∃ front, n.toList = front ++ halt.rest ∧
        compile (p ++ ";" ++ n) =
          .error (.malformedPattern (p ++ ";" ++ n) (p.length + 1 + front.length) halt.fault) := by
  have hread := read_joined h hnone n
  refine ⟨fun other hother hotherNone => ?_, fun halt hhalt => ?_⟩
  · obtain ⟨sub, hsub, _, rfl⟩ := compile_single_iff.mp ⟨hother, hotherNone⟩
    rw [readNegative, hsub] at hread
    exact compile_ok.mpr hread
  · -- the fault shows in an end of the second text, and that is an end of the joined one too
    have hstays := staysIn_readSubpattern n.toList
    rw [hhalt] at hstays
    obtain ⟨front, hfront⟩ := hstays
    have hposition : (p ++ ";" ++ n).toList.length - halt.rest.length =
        p.length + 1 + front.length := by
      have hlength := congrArg List.length hfront
      have hone : ";".length = 1 := rfl
      simp only [List.length_append, String.length_toList, String.length_append] at hlength ⊢
      omega
    have herror : Pattern.read (p ++ ";" ++ n) = .error halt := by
      rw [hread, readNegative, hhalt]
      rfl
    exact ⟨front, hfront.symm, by rw [compile, herror, ← hposition]⟩

/-- A separator in quotes ends nothing, and a percent sign of the second pattern scales nothing. -/
theorem compile_joined_quoted_separator :
    ∃ pattern, compile "#,##0.0';'''" = .ok pattern ∧ pattern.negative = none ∧
      compile "#,##0.0';''';(0E0%)" =
        .ok { pattern with
          source := "#,##0.0';''';(0E0%)"
          negative := some ⟨[.literal '('], [.percent, .literal ')']⟩ } ∧
      compile "#,##0.0';''';(0'a" =
        .error (.malformedPattern "#,##0.0';''';(0'a" 15 .unterminatedQuote) := by
  refine ⟨_, rfl, rfl, ?_, ?_⟩
  · exact (compile_joined "#,##0.0';'''" "(0E0%)" _ rfl rfl).1 _ rfl rfl
  · obtain ⟨front, hfront, hcompile⟩ := (compile_joined "#,##0.0';'''" "(0'a" _ rfl rfl).2
      ⟨.unterminatedQuote, "'a".toList⟩ rfl
    have hsplit : "(0'a".toList = "(0".toList ++ "'a".toList := by decide
    obtain rfl : front = "(0".toList := List.append_cancel_right (hfront.symm.trans hsplit)
    exact hcompile

end Pattern

end Reckoner
