import Mathlib.Data.List.DropRight
import Reckoner.Proofs.AffixGrammar

namespace Reckoner

namespace Pattern

/-- The signs of a whole part. -/
def IsWholeSign (c : Char) : Prop :=
  c = '#' ∨ c = '0' ∨ c = ','

/-- A digit that is always there is not followed by one that need not be. -/
def IsOrdered (word : List Char) : Prop :=
  word.Pairwise fun a b => a = '0' → b ≠ '#'

/-- The signs after the last separator. -/
def lastGroup (word : List Char) : List Char :=
  word.rtakeWhile (· ≠ ',')

theorem lastGroup_cons_of_mem {c : Char} {word : List Char} (h : ',' ∈ word) :
    lastGroup (c :: word) = lastGroup word := by
  have hstop : ¬∀ d ∈ word.reverse, decide (d ≠ ',') = true := by simp [h]
  have hlength : (word.reverse.takeWhile (· ≠ ',')).length ≠ word.reverse.length := by
    intro heq
    apply hstop
    rw [← List.takeWhile_eq_self_iff]
    exact (List.takeWhile_prefix _).eq_of_length heq
  rw [lastGroup, List.rtakeWhile, List.reverse_cons, List.takeWhile_append, if_neg hlength]
  rfl

theorem lastGroup_separator {word : List Char} (h : ',' ∉ word) :
    lastGroup (',' :: word) = word := by
  have hall : ∀ c ∈ word.reverse, decide (c ≠ ',') = true := by
    intro c hc
    simpa using ne_of_mem_of_not_mem (List.mem_reverse.mp hc) h
  rw [lastGroup, List.rtakeWhile, List.reverse_cons, List.takeWhile_append_of_pos hall]
  simp

namespace IntegerPart

/-- The counts behind a further word. -/
def extend (part : IntegerPart) (word : List Char) : IntegerPart where
  zeros := part.zeros + word.count '0'
  hashes := part.hashes + word.count '#'
  group := if ',' ∈ word then some (lastGroup word).length else part.group.map (· + word.length)

theorem extend_hash (part : IntegerPart) (word : List Char) :
    extend { part with hashes := part.hashes + 1, group := part.group.map (· + 1) } word =
      part.extend ('#' :: word) := by
  obtain ⟨zeros, hashes, group⟩ := part
  by_cases h : ',' ∈ word <;> cases group <;>
    simp [extend, h, lastGroup_cons_of_mem, Nat.add_assoc, Nat.add_comm 1]

theorem extend_zero (part : IntegerPart) (word : List Char) :
    extend { part with zeros := part.zeros + 1, group := part.group.map (· + 1) } word =
      part.extend ('0' :: word) := by
  obtain ⟨zeros, hashes, group⟩ := part
  by_cases h : ',' ∈ word <;> cases group <;>
    simp [extend, h, lastGroup_cons_of_mem, Nat.add_assoc, Nat.add_comm 1]

theorem extend_separator (part : IntegerPart) (word : List Char) :
    extend { part with group := some 0 } word = part.extend (',' :: word) := by
  by_cases h : ',' ∈ word <;>
    simp [extend, h, lastGroup_cons_of_mem, lastGroup_separator]

end IntegerPart

/-- The whole part is read as far as its signs go. -/
theorem readInteger_append {part : IntegerPart} {word rest : List Char}
    (hword : ∀ c ∈ word, IsWholeSign c) (hordered : IsOrdered word)
    (hzeros : part.zeros = 0 ∨ '#' ∉ word) (hrest : ∀ c ∈ rest.head?, ¬IsWholeSign c) :
    readInteger part (word ++ rest) = .ok (part.extend word, rest) := by
  induction word generalizing part with
  | nil =>
    have hpart : part.extend [] = part := by
      obtain ⟨zeros, hashes, group⟩ := part
      cases group <;> simp [IntegerPart.extend]
    rw [hpart, List.nil_append, readInteger]
    · rintro tail rfl
      exact hrest '#' rfl (Or.inl rfl)
    · rintro tail rfl
      exact hrest '0' rfl (Or.inr (Or.inl rfl))
    · rintro tail rfl
      exact hrest ',' rfl (Or.inr (Or.inr rfl))
  | cons c word ih =>
    have hmore : ∀ d ∈ word, IsWholeSign d := fun d hd => hword d (List.mem_cons_of_mem _ hd)
    obtain ⟨hfirst, htail⟩ := List.pairwise_cons.mp hordered
    rcases hword c List.mem_cons_self with rfl | rfl | rfl
    · have hnone : part.zeros = 0 := hzeros.resolve_right (by simp)
      rw [List.cons_append, readInteger, if_neg (by omega), ← IntegerPart.extend_hash]
      exact ih hmore htail (Or.inl hnone)
    · have hnot : '#' ∉ word := fun hmem => hfirst '#' hmem rfl rfl
      rw [List.cons_append, readInteger, ← IntegerPart.extend_zero]
      exact ih hmore htail (Or.inr hnot)
    · have hstill : part.zeros = 0 ∨ '#' ∉ word := hzeros.imp_right (by simp)
      rw [List.cons_append, readInteger, ← IntegerPart.extend_separator]
      exact ih hmore htail hstill

/-- What is read as a whole part is one. -/
theorem exists_word_of_readInteger {part read : IntegerPart} {text rest : List Char}
    (h : readInteger part text = .ok (read, rest)) :
    ∃ word, text = word ++ rest ∧ (∀ c ∈ word, IsWholeSign c) ∧ IsOrdered word ∧
      (part.zeros = 0 ∨ '#' ∉ word) ∧ ∀ c ∈ rest.head?, ¬IsWholeSign c := by
  fun_induction readInteger part text with
  | case1 => simp at h
  | case2 part text hzeros ih =>
    obtain ⟨word, rfl, hword, hordered, _, hrest⟩ := ih h
    refine ⟨'#' :: word, rfl, List.forall_mem_cons.mpr ⟨Or.inl rfl, hword⟩,
      List.pairwise_cons.mpr ⟨fun _ _ heq => absurd heq (by decide), hordered⟩, ?_, hrest⟩
    exact Or.inl (by omega)
  | case3 part text ih =>
    obtain ⟨word, rfl, hword, hordered, hzeros, hrest⟩ := ih h
    have hnot : '#' ∉ word := hzeros.resolve_left (by simp)
    refine ⟨'0' :: word, rfl, List.forall_mem_cons.mpr ⟨Or.inr (Or.inl rfl), hword⟩,
      List.pairwise_cons.mpr ⟨fun d hd _ => ne_of_mem_of_not_mem hd hnot, hordered⟩,
      Or.inr (by simpa using hnot), hrest⟩
  | case4 part text ih =>
    obtain ⟨word, rfl, hword, hordered, hzeros, hrest⟩ := ih h
    refine ⟨',' :: word, rfl, List.forall_mem_cons.mpr ⟨Or.inr (Or.inr rfl), hword⟩,
      List.pairwise_cons.mpr ⟨fun _ _ heq => absurd heq (by decide), hordered⟩,
      hzeros.imp_right (by simp), hrest⟩
  | case5 part text hhash hzero hseparator =>
    simp only [Except.ok.injEq, Prod.mk.injEq] at h
    obtain ⟨rfl, rfl⟩ := h
    refine ⟨[], rfl, by simp, List.Pairwise.nil, Or.inr (by simp), ?_⟩
    rintro c hc (rfl | rfl | rfl)
    · exact hhash _ (List.head?_eq_some_iff.mp hc).choose_spec
    · exact hzero _ (List.head?_eq_some_iff.mp hc).choose_spec
    · exact hseparator _ (List.head?_eq_some_iff.mp hc).choose_spec

def FractionPart.text (part : FractionPart) : List Char :=
  List.replicate part.zeros '0' ++ List.replicate part.hashes '#'

/-- A text at which the digits of a number end. -/
def DigitsEnd (rest : List Char) : Prop :=
  ∀ c ∈ rest.head?, ¬IsWholeSign c ∧ c ≠ '.'

theorem readFraction_zeros {part : FractionPart} (h : part.hashes = 0) (count : ℕ)
    (text : List Char) : readFraction part (List.replicate count '0' ++ text) =
      readFraction { part with zeros := part.zeros + count } text := by
  induction count generalizing part with
  | zero => rfl
  | succ count ih =>
    have hmore : ({ part with zeros := part.zeros + 1 } : FractionPart).hashes = 0 := h
    rw [List.replicate_succ, List.cons_append, readFraction, if_neg (by omega), ih hmore,
      Nat.add_assoc, Nat.add_comm 1]

theorem readFraction_hashes {rest : List Char} (hrest : DigitsEnd rest) (part : FractionPart)
    (count : ℕ) : readFraction part (List.replicate count '#' ++ rest) =
      .ok ({ part with hashes := part.hashes + count }, rest) := by
  induction count generalizing part with
  | zero =>
    rw [List.replicate_zero, List.nil_append, readFraction]
    · rfl
    · rintro tail rfl
      exact (hrest '0' rfl).1 (Or.inr (Or.inl rfl))
    · rintro tail rfl
      exact (hrest '#' rfl).1 (Or.inl rfl)
    · rintro tail rfl
      exact (hrest '.' rfl).2 rfl
    · rintro tail rfl
      exact (hrest ',' rfl).1 (Or.inr (Or.inr rfl))
  | succ count ih =>
    rw [List.replicate_succ, List.cons_append, readFraction, ih, Nat.add_assoc, Nat.add_comm 1]

theorem readFraction_text {rest : List Char} (hrest : DigitsEnd rest) (part : FractionPart) :
    readFraction ⟨0, 0⟩ (part.text ++ rest) = .ok (part, rest) := by
  rw [FractionPart.text, List.append_assoc, readFraction_zeros rfl, readFraction_hashes hrest]
  simp

/-- What is read as a fraction is one. -/
theorem exists_text_of_readFraction {part read : FractionPart} {text rest : List Char}
    (h : readFraction part text = .ok (read, rest)) :
    ∃ more : FractionPart, text = more.text ++ rest ∧ (part.hashes = 0 ∨ more.zeros = 0) ∧
      DigitsEnd rest := by
  fun_induction readFraction part text with
  | case1 => simp at h
  | case2 part text hhashes ih =>
    obtain ⟨⟨zeros, hashes⟩, rfl, _, hrest⟩ := ih h
    exact ⟨⟨zeros + 1, hashes⟩, rfl, Or.inl (by omega), hrest⟩
  | case3 part text ih =>
    obtain ⟨⟨zeros, hashes⟩, rfl, hzeros, hrest⟩ := ih h
    have hnone : zeros = 0 := hzeros.resolve_left (Nat.succ_ne_zero _)
    subst hnone
    exact ⟨⟨0, hashes + 1⟩, rfl, Or.inr rfl, hrest⟩
  | case4 => simp at h
  | case5 => simp at h
  | case6 part text hzero hhash hpoint hseparator =>
    simp only [Except.ok.injEq, Prod.mk.injEq] at h
    obtain ⟨rfl, rfl⟩ := h
    refine ⟨⟨0, 0⟩, rfl, Or.inr rfl, fun c hc => ⟨?_, ?_⟩⟩
    · rintro (rfl | rfl | rfl)
      · exact hhash _ (List.head?_eq_some_iff.mp hc).choose_spec
      · exact hzero _ (List.head?_eq_some_iff.mp hc).choose_spec
      · exact hseparator _ (List.head?_eq_some_iff.mp hc).choose_spec
    · rintro rfl
      exact hpoint _ (List.head?_eq_some_iff.mp hc).choose_spec

/-- Reads a point and a fraction, if there is one. -/
def readPoint : List Char → Except PatternHalt (Option FractionPart × List Char)
  | '.' :: rest => do
    let (part, rest) ← readFraction ⟨0, 0⟩ rest
    pure (some part, rest)
  | rest => pure (none, rest)

/-- Reads an exponent, if there is one. -/
def readPower : List Char → Option ℕ × List Char
  | 'E' :: rest => (some (rest.takeWhile (· == '0')).length, rest.dropWhile (· == '0'))
  | rest => (none, rest)

/-- Takes a part that was read to its end. -/
def checked (sub : Subpattern) (rest : List Char) : Except PatternHalt (Subpattern × List Char) :=
  match rest with
  | ';' :: _ | [] =>
    match sub.fault? with
    | some fault => .error ⟨fault, rest⟩
    | none => .ok (sub, rest)
  | c :: _ => .error ⟨.specialInSuffix c, rest⟩

/-- A part is read piece by piece. -/
theorem readSubpattern_eq (text : List Char) : readSubpattern text = (do
    let (before, rest) ← readAffix endsPrefix none text
    let (integer, rest) ← readInteger ⟨0, 0, none⟩ rest
    let (fraction, rest) ← readPoint rest
    let (after, left) ← readAffix endsSuffix none (readPower rest).2
    checked ⟨⟨before, after⟩, integer, fraction, (readPower rest).1⟩ left) := by
  unfold readSubpattern
  congr
  funext ⟨before, rest⟩
  dsimp only
  congr
  funext ⟨integer, rest⟩
  dsimp only
  split
  · rename_i rest
    rw [readPoint]
    cases readFraction ⟨0, 0⟩ rest <;> rfl
  · rename_i hpoint
    rw [readPoint]
    · rfl
    · exact hpoint

theorem checked_ok_iff {sub read : Subpattern} {rest left : List Char} :
    checked sub rest = .ok (read, left) ↔
      sub = read ∧ rest = left ∧ sub.fault? = none ∧ ∀ c ∈ rest.head?, c = ';' := by
  cases rest with
  | nil => cases hfault : sub.fault? <;> simp [checked, hfault]
  | cons c tail =>
    by_cases hc : c = ';'
    · subst hc
      cases hfault : sub.fault? <;> simp [checked, hfault]
    · simp [checked, hc]

end Pattern

end Reckoner
