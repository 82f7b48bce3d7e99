import Reckoner.Proofs.BuiltFormatter

namespace Reckoner

/-- What an affix is written with: a text between quotes, or a sign outside of them. -/
inductive AffixItem
  | quoted (inner : List Char)
  | sign (c : Char)

namespace AffixItem

open Pattern (quote partOf)

/-- Between quotes a quote is written twice. -/
def escaped (inner : List Char) : List Char :=
  inner.flatMap fun c => if c = quote then [quote, quote] else [c]

def text : AffixItem → List Char
  | quoted inner => quote :: (escaped inner ++ [quote])
  | sign c => [c]

/-- Two quotes with nothing between them stand for one. -/
def parts : AffixItem → List AffixPart
  | quoted [] => [.literal quote]
  | quoted inner => inner.map .literal
  | sign c => [partOf c]

/-- The power of ten of a percent or per mille sign outside quotes. -/
def scale? : AffixItem → Option ℕ
  | sign c => if c = '%' then some 2 else if c = '\u2030' then some 3 else none
  | quoted _ => none

/-- The signs that an affix can be written with. -/
def Allowed (ends : Char → Bool) (items : List AffixItem) : Prop :=
  ∀ c, sign c ∈ items → c ≠ quote ∧ ends c = false

/-- A text does not tell where one quoted text ends and the next one begins. This is how its quotes
are taken: two of them stand for one wherever they can. -/
def Canonical : List AffixItem → Prop
  | [] => True
  | quoted (c :: _) :: items =>
    c ≠ quote ∧ (∀ inner, items.head? ≠ some (quoted inner)) ∧ Canonical items
  | _ :: items => Canonical items

def textOf (items : List AffixItem) : List Char :=
  items.flatMap text

def partsOf (items : List AffixItem) : List AffixPart :=
  items.flatMap parts

def scales (items : List AffixItem) : List ℕ :=
  items.filterMap scale?

theorem textOf_cons (item : AffixItem) (items : List AffixItem) :
    textOf (item :: items) = item.text ++ textOf items :=
  rfl

theorem textOf_quoted (inner : List Char) (items : List AffixItem) (rest : List Char) :
    textOf (.quoted inner :: items) ++ rest =
      quote :: (escaped inner ++ quote :: (textOf items ++ rest)) := by
  simp [textOf, text]

theorem escaped_cons {c : Char} (hc : c ≠ quote) (inner : List Char) :
    escaped (c :: inner) = c :: escaped inner := by
  simp [escaped, hc]

theorem Allowed.tail {ends : Char → Bool} {item : AffixItem} {items : List AffixItem}
    (h : Allowed ends (item :: items)) : Allowed ends items :=
  fun c hc => h c (List.mem_cons_of_mem _ hc)

theorem Allowed.quoted {ends : Char → Bool} {items : List AffixItem}
    (h : Allowed ends items) (inner : List Char) :
    Allowed ends (.quoted inner :: items) := by
  intro c hc
  rcases List.mem_cons.mp hc with heq | hc
  · simp at heq
  · exact h c hc

theorem Canonical.tail {item : AffixItem} {items : List AffixItem}
    (h : Canonical (item :: items)) : Canonical items := by
  match item with
  | quoted [] => exact h
  | quoted (_ :: _) => exact h.2.2
  | sign _ => exact h

theorem multiplier?_partOf (c : Char) : (partOf c).multiplier? = (sign c).scale? := by
  unfold partOf scale?
  dsimp only
  split
  · rfl
  · split
    · rfl
    · split
      · rfl
      · split <;> rfl

theorem filterMap_literal (inner : List Char) :
    (inner.map AffixPart.literal).filterMap AffixPart.multiplier? = [] := by
  simp [List.filterMap_map, Function.comp_def, AffixPart.multiplier?]

end AffixItem

namespace Pattern

open AffixItem

variable {ends : Char → Bool} {rest : List Char}

/-- A text at which an affix ends. -/
def AffixEnds (ends : Char → Bool) (rest : List Char) : Prop :=
  ∀ c ∈ rest.head?, c ≠ quote ∧ ends c = true

/-- The parts come before those that are read of the rest. -/
def prepend (parts : List AffixPart) (read : Except PatternHalt (List AffixPart × List Char)) :
    Except PatternHalt (List AffixPart × List Char) :=
  read.map fun (more, left) => (parts ++ more, left)

theorem readAffix_twice (opened : Option (List Char)) (text : List Char) :
    readAffix ends opened (quote :: quote :: text) =
      prepend [.literal quote] (readAffix ends opened text) := by
  cases opened <;> simp only [quote, readAffix, prepend] <;> cases readAffix ends _ text <;> rfl

theorem readAffix_open {text : List Char} (h : ∀ c ∈ text.head?, c ≠ quote) :
    readAffix ends none (quote :: text) = readAffix ends (some (quote :: text)) text := by
  cases text with
  | nil => rfl
  | cons c text =>
    have hc : c ≠ quote := h c rfl
    simp only [quote] at hc ⊢
    rw [readAffix]
    · rfl
    · rintro _ ⟨⟩
      exact hc rfl

theorem readAffix_close {text : List Char} (h : ∀ c ∈ text.head?, c ≠ quote)
    (start : List Char) :
    readAffix ends (some start) (quote :: text) = readAffix ends none text := by
  cases text with
  | nil => rfl
  | cons c text =>
    have hc : c ≠ quote := h c rfl
    simp only [quote] at hc ⊢
    rw [readAffix]
    rintro _ ⟨⟩
    exact hc rfl

theorem readAffix_inside {c : Char} (hc : c ≠ quote) (start text : List Char) :
    readAffix ends (some start) (c :: text) =
      prepend [.literal c] (readAffix ends (some start) text) := by
  rw [readAffix]
  · simp only [prepend]
    cases readAffix ends (some start) text <;> rfl
  · rintro _ rfl
    exact absurd rfl hc
  · rintro rfl
    exact absurd rfl hc

theorem readAffix_sign {c : Char} (hc : c ≠ quote) (hends : ends c = false) (text : List Char) :
    readAffix ends none (c :: text) = prepend [partOf c] (readAffix ends none text) := by
  rw [readAffix, hends, if_neg Bool.false_ne_true]
  · simp only [prepend]
    cases readAffix ends none text <;> rfl
  · rintro _ rfl
    exact absurd rfl hc
  · rintro rfl
    exact absurd rfl hc

theorem readAffix_ends (h : AffixEnds ends rest) : readAffix ends none rest = .ok ([], rest) := by
  cases rest with
  | nil => rfl
  | cons c rest =>
    obtain ⟨hc, hends⟩ := h c rfl
    rw [readAffix, if_pos hends]
    · rintro _ rfl
      exact absurd rfl hc
    · rintro rfl
      exact absurd rfl hc

theorem readAffix_escaped {start text : List Char} {parts : List AffixPart}
    (h : readAffix ends (some start) text = .ok (parts, rest)) (inner : List Char) :
    readAffix ends (some start) (escaped inner ++ text) =
      .ok (inner.map .literal ++ parts, rest) := by
  induction inner with
  | nil => exact h
  | cons c inner ih =>
    by_cases hc : c = quote
    · subst hc
      change readAffix ends (some start) (quote :: quote :: (escaped inner ++ text)) = _
      rw [readAffix_twice, ih]
      rfl
    · rw [escaped_cons hc, List.cons_append, readAffix_inside hc, ih]
      rfl

/-- Items are read outside quotes, and inside after the quote that ends them. How quotes are taken
has no part in the scales, only in the parts. -/
structure ReadsItems (ends : Char → Bool) (items : List AffixItem) (rest : List Char) : Prop where
  outside : ∃ parts, readAffix ends none (textOf items ++ rest) = .ok (parts, rest) ∧
    parts.filterMap AffixPart.multiplier? = scales items ∧
    (Canonical items → parts = partsOf items)
  inside : ∀ start, ∃ parts,
    readAffix ends (some start) (quote :: (textOf items ++ rest)) = .ok (parts, rest) ∧
    parts.filterMap AffixPart.multiplier? = scales items ∧
    (Canonical items → (∀ inner, items.head? ≠ some (quoted inner)) → parts = partsOf items)

/-- A quote that no other quote follows ends a quoted text. -/
theorem ReadsItems.of_outside {items : List AffixItem}
    (hhead : ∀ c ∈ (textOf items ++ rest).head?, c ≠ quote)
    (h : ∃ parts, readAffix ends none (textOf items ++ rest) = .ok (parts, rest) ∧
      parts.filterMap AffixPart.multiplier? = scales items ∧
      (Canonical items → parts = partsOf items)) : ReadsItems ends items rest := by
  refine ⟨h, fun start => ?_⟩
  obtain ⟨parts, hread, hscales, hparts⟩ := h
  exact ⟨parts, by rw [readAffix_close hhead, hread], hscales, fun hcanonical _ =>
    hparts hcanonical⟩

theorem ReadsItems.nil (hrest : AffixEnds ends rest) : ReadsItems ends [] rest :=
  .of_outside (fun c hc => (hrest c hc).1) ⟨[], readAffix_ends hrest, rfl, fun _ => rfl⟩

theorem ReadsItems.sign {items : List AffixItem} (h : ReadsItems ends items rest) {c : Char}
    (hc : c ≠ quote) (hends : ends c = false) : ReadsItems ends (.sign c :: items) rest := by
  refine .of_outside ?_ ?_
  · rintro _ ⟨⟩
    exact hc
  · obtain ⟨parts, hread, hscales, hparts⟩ := h.outside
    refine ⟨partOf c :: parts, ?_, ?_, fun hcanonical => ?_⟩
    · change readAffix ends none (c :: (textOf items ++ rest)) = _
      rw [readAffix_sign hc hends, hread]
      rfl
    · rw [List.filterMap_cons, multiplier?_partOf, hscales]
      rfl
    · rw [hparts hcanonical.tail]
      rfl

/-- A quoted text that begins with quotes is read as these, and then as the text after them. -/
theorem ReadsItems.outside_quoted {items : List AffixItem} (h : ReadsItems ends items rest)
    (inner : List Char) :
    ∃ parts, readAffix ends none (textOf (.quoted inner :: items) ++ rest) = .ok (parts, rest) ∧
      parts.filterMap AffixPart.multiplier? = scales (.quoted inner :: items) ∧
      (Canonical (.quoted inner :: items) → parts = partsOf (.quoted inner :: items)) := by
  induction inner with
  | nil =>
    obtain ⟨parts, hread, hscales, hparts⟩ := h.outside
    refine ⟨.literal quote :: parts, ?_, hscales, fun hcanonical => ?_⟩
    · rw [textOf_quoted]
      change readAffix ends none (quote :: quote :: (textOf items ++ rest)) = _
      rw [readAffix_twice, hread]
      rfl
    · rw [hparts hcanonical.tail]
      rfl
  | cons c inner ih =>
    by_cases hc : c = quote
    · subst hc
      obtain ⟨parts, hread, hscales, hparts⟩ := ih
      refine ⟨.literal quote :: parts, ?_, hscales, fun hcanonical => absurd rfl hcanonical.1⟩
      rw [textOf_quoted] at hread ⊢
      change readAffix ends none (quote :: quote :: quote ::
        (escaped inner ++ quote :: (textOf items ++ rest))) = _
      rw [readAffix_twice, hread]
      rfl
    · have hhead : ∀ d ∈ (escaped (c :: inner) ++ quote :: (textOf items ++ rest)).head?,
          d ≠ quote := by
        rw [escaped_cons hc]
        rintro _ ⟨⟩
        exact hc
      rw [textOf_quoted, readAffix_open hhead]
      obtain ⟨parts, hread, hscales, hparts⟩ := h.inside
        (quote :: (escaped (c :: inner) ++ quote :: (textOf items ++ rest)))
      refine ⟨(c :: inner).map .literal ++ parts, readAffix_escaped hread _, ?_,
        fun hcanonical => ?_⟩
      · rw [List.filterMap_append, filterMap_literal, hscales]
        rfl
      · rw [hparts hcanonical.tail hcanonical.2.1]
        rfl

theorem ReadsItems.quoted {items : List AffixItem} (h : ReadsItems ends items rest)
    (inner : List Char) : ReadsItems ends (.quoted inner :: items) rest := by
  refine ⟨h.outside_quoted inner, fun start => ?_⟩
  obtain ⟨parts, hread, hscales, _⟩ := h.inside start
  refine ⟨.literal quote :: (inner.map .literal ++ parts), ?_, ?_,
    fun _ happart => absurd rfl (happart inner)⟩
  · rw [textOf_quoted, readAffix_twice, readAffix_escaped hread]
    rfl
  · change (inner.map AffixPart.literal ++ parts).filterMap _ = _
    rw [List.filterMap_append, filterMap_literal, hscales]
    rfl

theorem readsItems {items : List AffixItem} (hitems : Allowed ends items)
    (hrest : AffixEnds ends rest) : ReadsItems ends items rest := by
  induction items with
  | nil => exact .nil hrest
  | cons item items ih =>
    have hmore := ih hitems.tail
    cases item with
    | quoted inner => exact hmore.quoted inner
    | sign c =>
      obtain ⟨hc, hends⟩ := hitems c List.mem_cons_self
      exact hmore.sign hc hends

/-- A text in front of `rest` as it is written outside quotes, or after an open one. -/
def WrittenItems (ends : Char → Bool) (opened : Option (List Char)) (text rest : List Char) :
    Prop :=
  ∃ items, Allowed ends items ∧ Canonical items ∧
    match opened with
    | none => text = textOf items ++ rest
    | some _ => (∀ inner, items.head? ≠ some (.quoted inner)) ∧
        ∃ inner, text = escaped inner ++ quote :: (textOf items ++ rest)

theorem WrittenItems.twice {opened : Option (List Char)} {text : List Char}
    (h : WrittenItems ends opened text rest) :
    WrittenItems ends opened (quote :: quote :: text) rest := by
  obtain ⟨items, hallowed, hcanonical, htext⟩ := h
  cases opened with
  | none =>
    dsimp only at htext
    subst htext
    exact ⟨.quoted [] :: items, hallowed.quoted [], hcanonical, rfl⟩
  | some start =>
    obtain ⟨hhead, inner, rfl⟩ := htext
    exact ⟨items, hallowed, hcanonical, hhead, quote :: inner, rfl⟩

theorem WrittenItems.opened {start text : List Char} (h : WrittenItems ends (some start) text rest)
    (hfirst : ∀ c ∈ text.head?, c ≠ quote) : WrittenItems ends none (quote :: text) rest := by
  obtain ⟨items, hallowed, hcanonical, hhead, inner, rfl⟩ := h
  refine ⟨.quoted inner :: items, hallowed.quoted inner, ?_, by
    rw [textOf_cons, AffixItem.text]
    simp only [List.cons_append, List.append_assoc, List.nil_append]⟩
  cases inner with
  | nil => exact absurd rfl (hfirst quote rfl)
  | cons c inner =>
    refine ⟨?_, hhead, hcanonical⟩
    rintro rfl
    exact absurd rfl (hfirst quote rfl)

theorem WrittenItems.closed {text : List Char} (h : WrittenItems ends none text rest)
    (hfirst : ∀ c ∈ text.head?, c ≠ quote) (start : List Char) :
    WrittenItems ends (some start) (quote :: text) rest := by
  obtain ⟨items, hallowed, hcanonical, htext⟩ := h
  dsimp only at htext
  subst htext
  refine ⟨items, hallowed, hcanonical, fun inner hhead => ?_, [], rfl⟩
  obtain ⟨more, rfl⟩ := List.head?_eq_some_iff.mp hhead
  exact absurd rfl (hfirst quote rfl)

theorem WrittenItems.sign {text : List Char} (h : WrittenItems ends none text rest) {c : Char}
    (hc : c ≠ quote) (hends : ends c = false) : WrittenItems ends none (c :: text) rest := by
  obtain ⟨items, hallowed, hcanonical, htext⟩ := h
  dsimp only at htext
  subst htext
  refine ⟨.sign c :: items, fun d hd => ?_, hcanonical, rfl⟩
  rcases List.mem_cons.mp hd with heq | hd
  · cases heq
    exact ⟨hc, hends⟩
  · exact hallowed d hd

theorem WrittenItems.inside {start text : List Char} (h : WrittenItems ends (some start) text rest)
    {c : Char} (hc : c ≠ quote) : WrittenItems ends (some start) (c :: text) rest := by
  obtain ⟨items, hallowed, hcanonical, hhead, inner, rfl⟩ := h
  exact ⟨items, hallowed, hcanonical, hhead, c :: inner, by rw [escaped_cons hc]; rfl⟩

/-- What is read after a part is read up to the same place. -/
theorem exists_of_cons_ok {part : AffixPart} {parts : List AffixPart}
    {read : Except PatternHalt (List AffixPart × List Char)}
    (h : (do let (parts, left) ← read; return (part :: parts, left)) = .ok (parts, rest)) :
    ∃ more, read = .ok (more, rest) := by
  obtain ⟨⟨more, left⟩, hread, hok⟩ := bind_eq_ok.mp h
  simp only [pure, Except.pure, Except.ok.injEq, Prod.mk.injEq] at hok
  obtain ⟨-, rfl⟩ := hok
  exact ⟨more, hread⟩

/-- What is read as an affix is one, with its quotes taken in the one way there is. -/
theorem writtenItems_of_readAffix {opened : Option (List Char)} {text : List Char}
    {parts : List AffixPart} (h : readAffix ends opened text = .ok (parts, rest)) :
    WrittenItems ends opened text rest ∧ AffixEnds ends rest := by
  have hfirst {text : List Char} (htext : ∀ more, text = '\x27' :: more → False) :
      ∀ c ∈ text.head?, c ≠ quote := by
    rintro c hc rfl
    obtain ⟨more, hmore⟩ := List.head?_eq_some_iff.mp hc
    exact htext more hmore
  fun_induction readAffix ends opened text generalizing parts with
  | case1 =>
    simp only [Except.ok.injEq, Prod.mk.injEq] at h
    obtain ⟨rfl, rfl⟩ := h
    exact ⟨⟨[], by simp [Allowed], trivial, rfl⟩, by simp [AffixEnds]⟩
  | case2 => simp at h
  | case3 opened text ih =>
    obtain ⟨more, hread⟩ := exists_of_cons_ok h
    obtain ⟨hwritten, hends⟩ := ih hread
    exact ⟨hwritten.twice, hends⟩
  | case4 text htext ih =>
    obtain ⟨hwritten, hends⟩ := ih h
    exact ⟨hwritten.opened (hfirst htext), hends⟩
  | case5 start text htext ih =>
    obtain ⟨hwritten, hends⟩ := ih h
    exact ⟨hwritten.closed (hfirst htext) start, hends⟩
  | case6 c text _ hc hends =>
    simp only [Except.ok.injEq, Prod.mk.injEq] at h
    obtain ⟨rfl, rfl⟩ := h
    refine ⟨⟨[], by simp [Allowed], trivial, rfl⟩, ?_⟩
    rintro _ ⟨⟩
    exact ⟨hc, hends⟩
  | case7 c text _ hc hends ih =>
    obtain ⟨more, hread⟩ := exists_of_cons_ok h
    obtain ⟨hwritten, hrest⟩ := ih hread
    exact ⟨hwritten.sign hc (Bool.eq_false_iff.mpr hends), hrest⟩
  | case8 start c text _ hc ih =>
    obtain ⟨more, hread⟩ := exists_of_cons_ok h
    obtain ⟨hwritten, hrest⟩ := ih hread
    exact ⟨hwritten.inside hc, hrest⟩

end Pattern

end Reckoner
