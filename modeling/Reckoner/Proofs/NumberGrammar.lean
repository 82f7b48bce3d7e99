import Mathlib.Data.List.TakeWhile
import Reckoner.Proofs.Scanning

namespace Reckoner

/-- How a number without a sign is written: a whole part that may be grouped, perhaps a fraction,
and perhaps the sign and the digits of an exponent. -/
structure NumberText where
  whole : List Char
  fraction : Option (List Char)
  exponent : Option (Bool × List Char)

namespace NumberText

/-- The digits that count, without the separators and the exponent. -/
def digits (b : NumberText) : List Char :=
  b.whole.filter Char.isDigit ++ b.fraction.getD []

def places (b : NumberText) : ℕ :=
  (b.fraction.getD []).length

/-- The power of ten that the exponent stands for. -/
def power (b : NumberText) : ℤ :=
  b.exponent.elim 0 fun (negative, digits) =>
    if negative then -Nat.ofDigitChars 10 digits 0 else Nat.ofDigitChars 10 digits 0

/-- The number that is written. -/
def value (b : NumberText) : ℚ :=
  Nat.ofDigitChars 10 b.digits 0 / 10 ^ b.places * 10 ^ b.power

def mantissaText (s : Symbols) (b : NumberText) : List Char :=
  b.whole ++ b.fraction.elim [] (s.decimal :: ·)

def signText (s : Symbols) (negative : Bool) : List Char :=
  if negative then [s.minus] else []

def exponentText (s : Symbols) (b : NumberText) : List Char :=
  b.exponent.elim [] fun (negative, digits) => s.exponent.toList ++ signText s negative ++ digits

def text (s : Symbols) (b : NumberText) : List Char :=
  b.mantissaText s ++ b.exponentText s

/-- The numbers that a formatter looks for. Groups are only for patterns that have them and only
before the decimal separator; an exponent needs a digit before it. -/
structure Conforms (f : Formatter) (b : NumberText) : Prop where
  whole : ∀ c ∈ b.whole, c.isDigit ∨ 0 < f.pattern.groupSize ∧ c = f.symbols.grouping
  fraction : ∀ digits ∈ b.fraction, ∀ c ∈ digits, c.isDigit
  exponent : ∀ e ∈ b.exponent, b.digits ≠ [] ∧ e.2 ≠ [] ∧ ∀ c ∈ e.2, c.isDigit

/-- The longest number that a text begins with. -/
structure IsLongest (f : Formatter) (text : List Char) (b : NumberText) : Prop where
  conforms : b.Conforms f
  front : b.text f.symbols <+: text
  longest : ∀ other : NumberText, other.Conforms f → other.text f.symbols <+: text →
    (other.text f.symbols).length ≤ (b.text f.symbols).length

/-- There always is one, if only the empty one. -/
theorem exists_isLongest (f : Formatter) (text : List Char) :
    ∃ b : NumberText, b.IsLongest f text := by
  let found : Set NumberText := {b | b.Conforms f ∧ b.text f.symbols <+: text}
  have hempty : (⟨[], none, none⟩ : NumberText) ∈ found :=
    ⟨⟨by simp, by simp, by simp⟩, List.nil_prefix⟩
  obtain ⟨b, ⟨hconforms, hfront⟩, hleast⟩ :=
    (measure fun b : NumberText => text.length - (b.text f.symbols).length).wf.has_min found
      ⟨_, hempty⟩
  refine ⟨b, hconforms, hfront, fun other hother hprefix => ?_⟩
  have hnot := hleast other ⟨hother, hprefix⟩
  have hle := hfront.length_le
  have hle' := hprefix.length_le
  change ¬text.length - (other.text f.symbols).length < text.length - (b.text f.symbols).length
    at hnot
  omega

variable {f : Formatter} {b : NumberText} {tail : List Char}

/-- What follows the longest number does not go on with it. -/
theorem IsLongest.not_extends (h : b.IsLongest f (b.text f.symbols ++ tail)) (other : NumberText)
    (hother : other.Conforms f) {c : Char} {more : List Char}
    (htext : other.text f.symbols = b.text f.symbols ++ c :: more) : ¬c :: more <+: tail := by
  intro hmore
  have hle := h.longest other hother (by rwa [htext, List.prefix_append_right_inj])
  rw [htext, List.length_append, List.length_cons] at hle
  omega

/-- A mantissa ends where neither a digit nor a separator that may still come follows. -/
def Ends (f : Formatter) (fraction : Option α) (tail : List Char) : Prop :=
  ∀ c ∈ tail.head?, ¬c.isDigit ∧ (fraction.isNone → c ≠ f.symbols.decimal ∧
    ¬(0 < f.pattern.groupSize ∧ c = f.symbols.grouping))

/-- A longest number without an exponent takes all that can belong to a mantissa. -/
theorem IsLongest.ends (h : b.IsLongest f (b.text f.symbols ++ tail)) (hb : b.exponent = none) :
    Ends f b.fraction tail := by
  intro c hc
  obtain ⟨rest, rfl⟩ := List.head?_eq_some_iff.mp hc
  have hfront : [c] <+: c :: rest := ⟨rest, rfl⟩
  obtain ⟨whole, fraction, exponent⟩ := b
  simp only at hb
  subst hb
  have hwhole := h.conforms.whole
  -- a sign that may stand in the whole part makes it longer
  have hgrow (hnone : fraction = none)
      (hsign : c.isDigit ∨ 0 < f.pattern.groupSize ∧ c = f.symbols.grouping) : False := by
    subst hnone
    refine h.not_extends ⟨whole ++ [c], none, none⟩
      ⟨List.forall_mem_append.mpr ⟨hwhole, List.forall_mem_singleton.mpr hsign⟩, by simp, by simp⟩
      ?_ hfront
    simp [text, mantissaText, exponentText]
  cases fraction with
  | none =>
    refine ⟨fun hdigit => hgrow rfl (Or.inl hdigit), fun _ => ⟨fun hdecimal => ?_,
      fun hgroup => hgrow rfl (Or.inr hgroup)⟩⟩
    refine h.not_extends ⟨whole, some [], none⟩ ⟨hwhole, by simp, by simp⟩
      ?_ hfront
    simp [text, mantissaText, exponentText, hdecimal]
  | some digits =>
    refine ⟨fun hdigit => ?_, fun hnone => by simp at hnone⟩
    have hdigits := h.conforms.fraction digits rfl
    refine h.not_extends ⟨whole, some (digits ++ [c]), none⟩ ⟨hwhole, ?_, by simp⟩
      ?_ hfront
    · rintro _ ⟨⟩
      exact List.forall_mem_append.mpr ⟨hdigits, List.forall_mem_singleton.mpr hdigit⟩
    · simp [text, mantissaText, exponentText]

/-- A longest number without an exponent has no exponent after it either. -/
theorem IsLongest.no_exponent (h : b.IsLongest f (b.text f.symbols ++ tail))
    (hb : b.exponent = none) (hdigits : b.digits ≠ []) {negative : Bool} {digits : List Char}
    (hne : digits ≠ []) (hall : ∀ c ∈ digits, c.isDigit) :
    ¬f.symbols.exponent.toList ++ signText f.symbols negative ++ digits <+: tail := by
  intro hfront
  have hcons : f.symbols.exponent.toList ++ signText f.symbols negative ++ digits ≠ [] := by
    simp [hne]
  obtain ⟨c, more, hmore⟩ := List.exists_cons_of_ne_nil hcons
  rw [hmore] at hfront
  refine h.not_extends { b with exponent := some (negative, digits) }
    ⟨h.conforms.whole, h.conforms.fraction, ?_⟩ ?_ hfront
  · rintro _ ⟨⟩
    exact ⟨hdigits, hne, hall⟩
  · rw [← hmore]
    simp [text, mantissaText, exponentText, hb]

/-- The exponent of a longest number takes all digits that follow. -/
theorem IsLongest.exponent_ends (h : b.IsLongest f (b.text f.symbols ++ tail)) {negative : Bool}
    {digits : List Char} (hb : b.exponent = some (negative, digits)) :
    ∀ c ∈ tail.head?, ¬c.isDigit := by
  intro c hc hdigit
  obtain ⟨rest, rfl⟩ := List.head?_eq_some_iff.mp hc
  have hfront : [c] <+: c :: rest := ⟨rest, rfl⟩
  obtain ⟨hcount, hne, hall⟩ := h.conforms.exponent _ hb
  refine h.not_extends { b with exponent := some (negative, digits ++ [c]) }
    ⟨h.conforms.whole, h.conforms.fraction, ?_⟩ ?_ hfront
  · rintro _ ⟨⟩
    exact ⟨hcount, by simp, List.forall_mem_append.mpr ⟨hall, List.forall_mem_singleton.mpr hdigit⟩⟩
  · simp [text, mantissaText, exponentText, hb]

/-- The state of the scanner behind the mantissa. -/
def scanned (b : NumberText) : ReadDigits :=
  ⟨Nat.ofDigitChars 10 b.digits 0, b.digits.length, b.fraction.map List.length⟩

/-- The number as digits and a power of ten. -/
def magnitude (b : NumberText) : Magnitude :=
  ⟨Nat.ofDigitChars 10 b.digits 0, b.power - b.places⟩

theorem scanned_magnitude (b : NumberText) : b.scanned.magnitude b.power = b.magnitude := by
  cases hb : b.fraction <;> simp [scanned, magnitude, ReadDigits.magnitude, places, hb]

theorem value_magnitude (b : NumberText) : b.magnitude.value = b.value := by
  rw [magnitude, Magnitude.value, value, zpow_sub₀ (by norm_num), zpow_natCast]
  ring

end NumberText

namespace Formatter

variable {f : Formatter}

/-- Separators in a whole part are read over. -/
theorem readDigits_whole (hs : f.symbols.Regular) {d : ReadDigits} (hd : d.fraction = none)
    {whole : List Char}
    (h : ∀ c ∈ whole, c.isDigit ∨ 0 < f.pattern.groupSize ∧ c = f.symbols.grouping)
    (rest : List Char) :
    f.readDigits d (whole ++ rest) =
      f.readDigits ((whole.filter Char.isDigit).foldl ReadDigits.push d) rest := by
  induction whole generalizing d with
  | nil => rfl
  | cons c whole ih =>
    have hwhole : ∀ c ∈ whole, c.isDigit ∨ 0 < f.pattern.groupSize ∧ c = f.symbols.grouping :=
      fun x hx => h x (List.mem_cons_of_mem _ hx)
    rw [List.cons_append, readDigits]
    rcases h c List.mem_cons_self with hc | ⟨hsize, rfl⟩
    · rw [if_pos hc, List.filter_cons_of_pos hc, List.foldl_cons]
      exact ih (by simp [ReadDigits.push, hd]) hwhole
    · rw [hs.grouping, if_neg Bool.false_ne_true, if_neg (fun hdec => hs.separators hdec.1.symm),
        if_pos ⟨rfl, hsize, hd⟩, List.filter_cons_of_neg (by simp [hs.grouping])]
      exact ih hd hwhole

/-- The scanner runs over a whole mantissa. -/
theorem readDigits_mantissa (hs : f.symbols.Regular) {b : NumberText} (hb : b.Conforms f)
    (rest : List Char) :
    f.readDigits .empty (b.mantissaText f.symbols ++ rest) = f.readDigits b.scanned rest := by
  rw [NumberText.mantissaText, List.append_assoc, readDigits_whole hs rfl hb.whole,
    ReadDigits.foldl_push]
  obtain ⟨whole, fraction, exponent⟩ := b
  cases fraction with
  | none => simp [NumberText.scanned, NumberText.digits, ReadDigits.empty]
  | some digits =>
    rw [Option.elim_some, List.cons_append, readDigits_point hs rfl,
      readDigits_digits _ (hb.fraction digits rfl), ReadDigits.foldl_push]
    simp [NumberText.scanned, NumberText.digits, ReadDigits.empty, Nat.ofDigitChars_append]

theorem readDigits_ends {d : ReadDigits} {rest : List Char}
    (h : NumberText.Ends f d.fraction rest) : f.readDigits d rest = (d, rest) := by
  cases rest with
  | nil => rfl
  | cons c rest =>
    obtain ⟨hdigit, hsigns⟩ := h c rfl
    have hnone : d.fraction = none → d.fraction.isNone = true := fun hd => by rw [hd]; rfl
    rw [readDigits, if_neg hdigit, if_neg (fun hdec => (hsigns (hnone hdec.2)).1 hdec.1),
      if_neg (fun hgroup => (hsigns (hnone hgroup.2.2)).2 ⟨hgroup.2.1, hgroup.1⟩)]

/-- What is read as an exponent is one. -/
theorem readExponent?_sound {text rest : List Char} {exponent : ℤ}
    (h : f.readExponent? text = some (exponent, rest)) :
    ∃ negative digits, digits ≠ [] ∧ (∀ c ∈ digits, c.isDigit) ∧
      f.symbols.exponent.toList ++ NumberText.signText f.symbols negative ++ digits <+: text := by
  unfold readExponent? at h
  obtain ⟨after, hafter, hread⟩ := Option.bind_eq_some_iff.mp h
  rw [List.isPrefixOf?_eq_some_iff_append_eq] at hafter
  subst hafter
  dsimp only at hread
  have hfound (negative : Bool) (signless : List Char)
      (hne : signless.takeWhile Char.isDigit ≠ []) :
      ∃ negative' digits, digits ≠ [] ∧ (∀ c ∈ digits, c.isDigit) ∧
        f.symbols.exponent.toList ++ NumberText.signText f.symbols negative' ++ digits <+:
          f.symbols.exponent.toList ++ (NumberText.signText f.symbols negative ++ signless) := by
    refine ⟨negative, _, hne, fun c hc => List.mem_takeWhile_imp hc, ?_⟩
    rw [List.append_assoc, List.prefix_append_right_inj, List.prefix_append_right_inj]
    exact List.takeWhile_prefix _
  cases after with
  | nil => simp at hread
  | cons c tail =>
    by_cases hc : c = f.symbols.minus
    · simp only [hc, if_true] at hread ⊢
      split at hread
      · simp at hread
      · rename_i hne
        exact hfound true tail hne
    · simp only [hc, if_false] at hread
      split at hread
      · simp at hread
      · rename_i hne
        exact hfound false (c :: tail) hne

/-- The longest number is the one that is read, if it has a digit. -/
theorem readMagnitude?_longest (hs : f.symbols.Regular) {b : NumberText} {tail : List Char}
    (h : b.IsLongest f (b.text f.symbols ++ tail)) :
    f.readMagnitude? (b.text f.symbols ++ tail) =
      if b.digits = [] then none else some (b.magnitude, tail) := by
  rw [readMagnitude?, NumberText.text, List.append_assoc, readDigits_mantissa hs h.conforms]
  cases hb : b.exponent with
  | none =>
    have hends := h.ends hb
    have hpower : b.power = 0 := by simp [NumberText.power, hb]
    rw [NumberText.exponentText, hb, Option.elim_none, List.nil_append,
      readDigits_ends (by
        have hsame : b.scanned.fraction.isNone = b.fraction.isNone := by
          simp [NumberText.scanned]
        intro c hc
        rw [hsame]
        exact hends c hc)]
    dsimp only
    by_cases hdigits : b.digits = []
    · simp [NumberText.scanned, hdigits]
    · have hcount : b.scanned.count ≠ 0 := by simpa [NumberText.scanned] using hdigits
      rw [if_neg hcount, if_neg hdigits]
      cases hread : f.readExponent? tail with
      | none => rw [← b.scanned_magnitude, hpower]
      | some read =>
        obtain ⟨negative, digits, hne, hall, hfront⟩ := readExponent?_sound hread
        exact absurd hfront (h.no_exponent hb hdigits hne hall)
  | some e =>
    obtain ⟨negative, digits⟩ := e
    obtain ⟨hdigits, hne, hall⟩ := h.conforms.exponent _ hb
    have hcount : b.scanned.count ≠ 0 := by simpa [NumberText.scanned] using hdigits
    have hread : f.readExponent? (b.exponentText f.symbols ++ tail) = some (b.power, tail) := by
      rw [NumberText.exponentText, NumberText.power, hb]
      exact readExponent?_append hs negative hne hall (h.exponent_ends hb)
    have hstop : f.symbols.Stops (b.exponentText f.symbols ++ tail) := by
      rw [NumberText.exponentText, hb, Option.elim_some, List.append_assoc, List.append_assoc]
      exact hs.exponent.stops _
    rw [readDigits_stop hstop]
    dsimp only
    rw [if_neg hcount, if_neg hdigits, hread, ← b.scanned_magnitude]

end Formatter

end Reckoner
