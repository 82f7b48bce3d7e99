import Mathlib.Data.List.Basic
import Reckoner.Formatter.Basic

namespace Reckoner

theorem bind_eq_ok {ε α β : Type} {x : Except ε α} {g : α → Except ε β} {r : β} :
    (x >>= g) = .ok r ↔ ∃ a, x = .ok a ∧ g a = .ok r := by
  cases x <;> simp [bind, Except.bind]

theorem Pattern.compile_ok {source : String} {p : Pattern} :
    compile source = .ok p ↔ Pattern.read source = .ok p := by
  unfold compile
  split <;> simp_all

/-- A compiled pattern is made of its first part and of the affixes of its second one. -/
theorem Pattern.read_ok_iff {source : String} {p : Pattern} :
    Pattern.read source = .ok p ↔
      ∃ positive rest negative, readSubpattern source.toList = .ok (positive, rest) ∧
        readNegative rest = .ok negative ∧ positive.multipliers.length ≤ 1 ∧
        p = positive.compiled source negative := by
  have hempty {read : Subpattern × List Char} (h : readSubpattern source.toList = .ok read) :
      ¬source.toList.isEmpty = true := by
    intro hnil
    have herror : readSubpattern [] = .error ⟨.noDigits, []⟩ := rfl
    rw [List.isEmpty_iff.mp hnil, herror] at h
    simp at h
  unfold Pattern.read
  dsimp only
  constructor
  · intro h
    split at h
    · simp at h
    · simp only [bind_eq_ok] at h
      obtain ⟨⟨positive, rest⟩, hpositive, negative, hnegative, h⟩ := h
      split at h
      · simp at h
      · rename_i hscales
        simp only [pure, Except.pure, Except.ok.injEq] at h
        exact ⟨positive, rest, negative, hpositive, hnegative, Nat.not_lt.mp hscales, h.symm⟩
  · rintro ⟨positive, rest, negative, hpositive, hnegative, hscales, rfl⟩
    rw [if_neg (hempty hpositive)]
    simp only [bind_eq_ok]
    refine ⟨(positive, rest), hpositive, negative, hnegative, ?_⟩
    rw [if_neg (Nat.not_lt.mpr hscales)]
    rfl

theorem Pattern.read_fraction {source : String} {p : Pattern} (h : Pattern.read source = .ok p) :
    p.minFraction ≤ p.maxFraction := by
  obtain ⟨positive, _, _, _, _, _, rfl⟩ := read_ok_iff.mp h
  exact Nat.le_add_right _ _

namespace Symbols

/-- A character that belongs to a number. -/
def IsNumberSign (s : Symbols) (c : Char) : Prop :=
  c.isDigit ∨ c = s.decimal ∨ c = s.grouping

instance (s : Symbols) (c : Char) : Decidable (s.IsNumberSign c) :=
  inferInstanceAs (Decidable (_ ∨ _))

/-- A text without any such character. -/
def Spares (s : Symbols) (text : List Char) : Prop :=
  ∀ c ∈ text, ¬s.IsNumberSign c

instance (s : Symbols) (text : List Char) : Decidable (s.Spares text) :=
  List.decidableBAll (fun c => ¬s.IsNumberSign c) text

/-- A symbol that no number begins with or goes on with. -/
def IsApart (s : Symbols) (text : String) : Prop :=
  text.toList ≠ [] ∧ s.Spares text.toList

/-- Symbols that a reader can tell from each other. -/
structure Regular (s : Symbols) : Prop where
  decimal : s.decimal.isDigit = false
  grouping : s.grouping.isDigit = false
  minus : s.minus.isDigit = false
  separators : s.decimal ≠ s.grouping
  exponent : s.IsApart s.exponent
  infinity : s.IsApart s.infinity
  nan : s.IsApart s.nan

/-- The currency has no part in how numbers are told apart. -/
theorem Regular.withCurrency {s : Symbols} (h : s.Regular) (currency : String) :
    Regular { s with currency } :=
  ⟨h.decimal, h.grouping, h.minus, h.separators, h.exponent, h.infinity, h.nan⟩

end Symbols

namespace Locale

theorem languageConventions_symbols (language : String) :
    (languageConventions language).1 = rootSymbols ∨
      (languageConventions language).1 = commaSymbols ∨
      (languageConventions language).1 = { commaSymbols with grouping := '\u202f' } := by
  unfold languageConventions
  split <;> simp

theorem languageConventions_regular (language : String) :
    (languageConventions language).1.Regular := by
  rcases languageConventions_symbols language with hs | hs | hs <;> rw [hs] <;>
    exact ⟨rfl, rfl, rfl, by decide, ⟨by decide, by decide⟩, ⟨by decide, by decide⟩,
      ⟨by decide, by decide⟩⟩

theorem conventions_regular (l : Locale) : l.conventions.symbols.Regular :=
  (languageConventions_regular l.language).withCurrency (currencyOf l.region).1

/-- Infinity is a single character in all locales, and not one of a NaN. -/
theorem conventions_infinity (l : Locale) :
    ∃ c, l.conventions.symbols.infinity.toList = [c] ∧ c ∉ l.conventions.symbols.nan.toList := by
  refine ⟨'\u221e', ?_⟩
  unfold conventions
  dsimp only
  rcases languageConventions_symbols l.language with hs | hs | hs <;> rw [hs] <;> decide

end Locale

namespace Formatter

/-- The formatters there are: those of a pattern, and those of the amounts and the percentages of a
locale. -/
def Built (f : Formatter) : Prop :=
  ∃ locale, (∃ source, ofPattern source locale = .ok f) ∨ currency locale = .ok f ∨
    percent locale = .ok f

theorem ofPattern_ok {source : String} {locale : Locale} {f : Formatter}
    (h : ofPattern source locale = .ok f) :
    Pattern.read source = .ok f.pattern ∧ f.symbols = locale.conventions.symbols := by
  simp only [ofPattern, bind_eq_ok, Pattern.compile_ok] at h
  obtain ⟨p, hp, h⟩ := h
  simp only [pure, Except.pure, Except.ok.injEq] at h
  subst h
  exact ⟨hp, rfl⟩

theorem currency_ok {locale : Locale} {f : Formatter} (h : currency locale = .ok f) :
    (∃ p, Pattern.read locale.conventions.currencyPattern = .ok p ∧
      f.pattern = p.withPlaces locale.conventions.currencyPlaces) ∧
      f.symbols = locale.conventions.symbols := by
  simp only [currency, bind_eq_ok, Pattern.compile_ok] at h
  obtain ⟨p, hp, h⟩ := h
  simp only [pure, Except.pure, Except.ok.injEq] at h
  subst h
  exact ⟨⟨p, hp, rfl⟩, rfl⟩

theorem Built.symbols {f : Formatter} (h : f.Built) :
    ∃ locale : Locale, f.symbols = locale.conventions.symbols := by
  obtain ⟨locale, ⟨source, h⟩ | h | h⟩ := h
  · exact ⟨locale, (ofPattern_ok h).2⟩
  · exact ⟨locale, (currency_ok h).2⟩
  · exact ⟨locale, (ofPattern_ok h).2⟩

theorem Built.regular {f : Formatter} (h : f.Built) : f.symbols.Regular := by
  obtain ⟨locale, hsymbols⟩ := h.symbols
  rw [hsymbols]
  exact locale.conventions_regular

theorem Built.fraction {f : Formatter} (h : f.Built) :
    f.pattern.minFraction ≤ f.pattern.maxFraction := by
  obtain ⟨locale, ⟨source, h⟩ | h | h⟩ := h
  · exact Pattern.read_fraction (ofPattern_ok h).1
  · obtain ⟨⟨p, _, hp⟩, _⟩ := currency_ok h
    rw [hp]
    exact Nat.le_refl _
  · exact Pattern.read_fraction (ofPattern_ok h).1

/-- Two places, and brackets around amounts below zero. -/
def accounting : Formatter where
  pattern := {
    source := "#,##0.00;(#,##0.00)"
    positive := ⟨[], []⟩
    negative := some ⟨[.literal '('], [.literal ')']⟩
    minInteger := 1
    maxInteger := 4
    minFraction := 2
    maxFraction := 2
    groupSize := 3
    alwaysPoint := false
    exponentDigits := none
    multiplier := 0 }
  symbols := { Locale.rootSymbols with currency := "$" }

theorem accounting_built : accounting.Built :=
  ⟨⟨"en", some "US"⟩, .inl ⟨"#,##0.00;(#,##0.00)", rfl⟩⟩

end Formatter

end Reckoner
