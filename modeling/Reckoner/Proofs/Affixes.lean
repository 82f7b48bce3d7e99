import Reckoner.Proofs.Scanning

namespace Reckoner

/-- A text without the first character of another one is in front of that one if it is a prefix of
both together. -/
theorem prefix_of_append_cons {text before rest : List Char} {c : Char}
    (h : text <+: before ++ c :: rest) (hc : c ∉ text) : text <+: before := by
  rcases List.prefix_or_prefix_of_prefix h (List.prefix_append before (c :: rest)) with h' | h'
  · exact h'
  · obtain ⟨tail, rfl⟩ := h'
    rw [List.prefix_append_right_inj] at h
    cases tail with
    | nil => simp
    | cons d tail =>
      rw [List.cons_prefix_cons] at h
      exact absurd (by simp [h.1]) hc

theorem isPrefixOf?_append_cons {text before rest tail : List Char} {c : Char}
    (h : text.isPrefixOf? (before ++ c :: rest) = some tail) (hc : c ∉ text) :
    text <+: before ∧ text.length + tail.length = before.length + (c :: rest).length := by
  rw [List.isPrefixOf?_eq_some_iff_append_eq] at h
  constructor
  · exact prefix_of_append_cons ⟨tail, h⟩ hc
  · rw [← List.length_append, h, List.length_append]

namespace Formatter

/-- Affixes from which a reader can tell the number. -/
structure Separate (f : Formatter) : Prop where
  before : ∀ negative, f.symbols.Spares (f.affixes negative).1
  nan : ∀ negative, ¬f.symbols.nan.toList <+: (f.affixes negative).1
  after : ∀ negative, f.symbols.Stops (f.affixes negative).2
  exponent : ∀ negative, ¬f.symbols.exponent.toList <+: (f.affixes negative).2

variable {f : Formatter} {n : Numeral}

/-- A sign is read back if the prefixes differ; of equal ones the positive is taken. -/
theorem readSign?_append {c : Char} (hc : ∀ sign, c ∉ (f.affixes sign).1) (negative : Bool)
    (rest : List Char) :
    f.readSign? ((f.affixes negative).1 ++ c :: rest) =
      some (negative && (f.affixes false).1 != (f.affixes true).1, c :: rest) := by
  have hown := isPrefixOf?_append (f.affixes negative).1 (c :: rest)
  unfold readSign?
  dsimp only
  cases negative with
  | false =>
    rw [hown]
    cases hneg : (f.affixes true).1.isPrefixOf? ((f.affixes false).1 ++ c :: rest) with
    | none => rfl
    | some tail =>
      obtain ⟨hfront, hlength⟩ := isPrefixOf?_append_cons hneg (hc true)
      have hle := hfront.length_le
      dsimp only
      rw [if_neg (by omega), Bool.false_and]
  | true =>
    rw [hown, Bool.true_and]
    cases hpos : (f.affixes false).1.isPrefixOf? ((f.affixes true).1 ++ c :: rest) with
    | none =>
      have hne : (f.affixes false).1 ≠ (f.affixes true).1 := by
        intro heq
        rw [heq, hown] at hpos
        simp at hpos
      simp [hne]
    | some tail =>
      by_cases heq : (f.affixes false).1 = (f.affixes true).1
      · rw [heq, hown] at hpos
        simp_all
      · obtain ⟨hfront, hlength⟩ := isPrefixOf?_append_cons hpos (hc false)
        have hlt : (f.affixes false).1.length < (f.affixes true).1.length :=
          lt_of_le_of_ne hfront.length_le (fun h => heq (hfront.eq_of_length h))
        dsimp only
        rw [if_pos (by omega), bne_iff_ne.mpr heq]

/-- What comes back of a written number. The sign is decided by the prefixes alone, so the suffix
that is looked for need not be the one that was written. -/
theorem readChars_written (hs : f.symbols.Regular) (ha : f.Separate) (hn : n.IsExact)
    (negative : Bool) :
    ∃ m : Magnitude, m.value = |f.rounded n.value| ∧
      let sign := negative && (f.affixes false).1 != (f.affixes true).1
      f.readChars ((f.affixes negative).1 ++ (f.body n).2 ++ (f.affixes negative).2) =
        if (f.affixes sign).2.isPrefixOf (f.affixes negative).2 then
          .ok (valueOf ((Numeral.ofMagnitude sign m).shift (-f.pattern.multiplier)))
        else .error (f.affixes negative).2 := by
  obtain ⟨m, hread, hvalue⟩ :=
    readMagnitude?_body hs hn (ha.after negative) (ha.exponent negative)
  obtain ⟨c, tail, hbody, hc⟩ := exists_body_cons (f := f) (n := n)
  refine ⟨m, hvalue, ?_⟩
  have hnan : ¬f.symbols.nan.toList <+:
      (f.affixes negative).1 ++ c :: (tail ++ (f.affixes negative).2) := fun h =>
    ha.nan negative (prefix_of_append_cons h (fun hmem => hs.nan.2 c hmem hc))
  have hinfinity : f.symbols.infinity.toList.isPrefixOf?
      (c :: (tail ++ (f.affixes negative).2)) = none := by
    rw [Option.eq_none_iff_forall_not_mem]
    intro rest hrest
    rw [Option.mem_def, List.isPrefixOf?_eq_some_iff_append_eq] at hrest
    have hfront : f.symbols.infinity.toList <+: [] :=
      prefix_of_append_cons ⟨rest, hrest⟩ (fun hmem => hs.infinity.2 c hmem hc)
    exact hs.infinity.1 (List.prefix_nil.mp hfront)
  rw [hbody, List.cons_append] at hread
  unfold readChars
  rw [hbody, List.append_assoc, List.cons_append,
    if_neg (fun h => hnan (List.isPrefixOf_iff_prefix.mp h)),
    readSign?_append (fun sign hmem => ha.before sign c hmem hc) negative]
  simp only [hinfinity, hread]

theorem read_writeNumeral (hs : f.symbols.Regular) (ha : f.Separate) (hn : n.IsExact) :
    ∃ m : Magnitude, m.value = |f.rounded n.value| ∧
      let negative := decide (f.rounded n.value < 0)
      let sign := negative && (f.affixes false).1 != (f.affixes true).1
      if (f.affixes sign).2 <+: (f.affixes negative).2 then
        f.read (f.writeNumeral n) =
          .ok (valueOf ((Numeral.ofMagnitude sign m).shift (-f.pattern.multiplier)))
      else ∃ e, f.read (f.writeNumeral n) = .error e := by
  obtain ⟨m, hvalue, hread⟩ := readChars_written hs ha hn (f.body n).1
  refine ⟨m, hvalue, ?_⟩
  rw [← body_negative hn]
  dsimp only at hread ⊢
  unfold read writeNumeral withAffixes
  simp only [String.toList_ofList, hread]
  split
  · rename_i hsuffix
    rw [if_pos (List.isPrefixOf_iff_prefix.mpr hsuffix)]
  · rename_i hsuffix
    rw [if_neg (fun h => hsuffix (List.isPrefixOf_iff_prefix.mp h))]
    exact ⟨_, rfl⟩

theorem accounting_separate : accounting.Separate := by
  constructor <;> decide

end Formatter

end Reckoner
