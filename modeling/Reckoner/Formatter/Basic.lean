import Reckoner.Numeral
import Reckoner.Pattern.Reader
import Reckoner.Value.Basic

namespace Reckoner

/-- What is wrong with a pattern, a number or a locale. Positions count characters. -/
inductive FormatError
  | malformedPattern (pattern : String) (position : Nat) (fault : PatternFault)
  | unparseable (text : String) (position : Nat)
  | invalidLocale (tag : String)
  deriving DecidableEq

namespace FormatError

def position? : FormatError → Option Nat
  | malformedPattern _ position _ | unparseable _ position => some position
  | invalidLocale _ => none

def message : FormatError → String
  | malformedPattern pattern position fault =>
    s!"Malformed pattern \"{pattern}\" at position {position}: {fault.message}"
  | unparseable text position =>
    s!"Unparseable number: \"{text}\" (error at position {position})"
  | invalidLocale tag => s!"Invalid locale tag \"{tag}\""

end FormatError

def Pattern.compile (source : String) : Except FormatError Pattern :=
  match Pattern.read source with
  | .ok pattern => .ok pattern
  | .error halt =>
    .error (.malformedPattern source (source.toList.length - halt.rest.length) halt.fault)

def Locale.ofTag (tag : String) : Except FormatError Locale :=
  match ofTag? tag with
  | some locale => .ok locale
  | none => .error (.invalidLocale tag)

/-- Writes and reads numbers by a pattern. -/
structure Formatter where
  pattern : Pattern
  symbols : Symbols
  deriving DecidableEq

namespace Formatter

def ofPattern (source : String) (locale : Locale) : Except FormatError Formatter := do
  return ⟨← Pattern.compile source, locale.conventions.symbols⟩

/-- Amounts of the currency of a locale, with the places of that currency. -/
def currency (locale : Locale) : Except FormatError Formatter := do
  let conventions := locale.conventions
  let pattern ← Pattern.compile conventions.currencyPattern
  return ⟨pattern.withPlaces conventions.currencyPlaces, conventions.symbols⟩

def percent (locale : Locale) : Except FormatError Formatter :=
  ofPattern locale.conventions.percentPattern locale

/-- The text before and after a number. -/
def affixes (f : Formatter) (negative : Bool) : List Char × List Char :=
  let affixes := f.pattern.affixes negative
  (renderAffix f.symbols affixes.before, renderAffix f.symbols affixes.after)

end Formatter

end Reckoner
