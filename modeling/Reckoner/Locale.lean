namespace Reckoner

/-- What a locale puts in the place of the signs of a pattern. -/
structure Symbols where
  decimal : Char
  grouping : Char
  minus : Char
  percent : Char
  perMille : Char
  exponent : String
  infinity : String
  nan : String
  currency : String
  deriving DecidableEq

/-- How numbers are written in a locale. -/
structure Conventions where
  symbols : Symbols
  currencyPattern : String
  percentPattern : String
  currencyPlaces : Nat
  deriving DecidableEq

/-- A language in lower case and perhaps a region in upper case. -/
structure Locale where
  language : String
  region : Option String
  deriving DecidableEq

namespace Locale

def ofParts (language : String) (region : Option String) : Locale :=
  ⟨language.map Char.toLower, region.map fun r => r.map Char.toUpper⟩

def enUS : Locale :=
  ofParts "en" (some "US")

/-- Whether a part of a tag is all letters, of a number of bytes between two bounds. -/
def isAlphabetic (least most : Nat) (part : List Char) : Bool :=
  let size := (String.ofList part).utf8ByteSize
  least ≤ size && size ≤ most && part.all Char.isAlpha

/-- Whether a part of a tag is all digits, of a number of bytes. -/
def isNumeric (size : Nat) (part : List Char) : Bool :=
  (String.ofList part).utf8ByteSize == size && part.all Char.isDigit

def isLanguage (part : List Char) : Bool :=
  isAlphabetic 2 3 part

def isRegion (part : List Char) : Bool :=
  isAlphabetic 2 2 part || isNumeric 3 part

def isSeparator (c : Char) : Bool :=
  c == '-' || c == '_'

/-- Reads a tag: a language of two or three letters, and perhaps a separator and a region of two
letters or three digits. -/
def ofTag? (tag : String) : Option Locale :=
  match tag.toList.splitOnP isSeparator with
  | [language] =>
    if isLanguage language then some (ofParts (String.ofList language) none) else none
  | [language, region] =>
    if isLanguage language && isRegion region then
      some (ofParts (String.ofList language) (some (String.ofList region)))
    else none
  | _ => none

def tag (l : Locale) : String :=
  match l.region with
  | some region => l.language ++ "-" ++ region
  | none => l.language

/-- The generic currency sign, which also stands for the currency in patterns. -/
def currencySign : Char := '\u00a4'

def rootSymbols : Symbols where
  decimal := '.'
  grouping := ','
  minus := '-'
  percent := '%'
  perMille := '\u2030'
  exponent := "E"
  infinity := "\u221e"
  nan := "NaN"
  currency := "\u00a4"

def commaSymbols : Symbols :=
  { rootSymbols with decimal := ',', grouping := '.' }

/-- The symbols, the currency pattern and the percent pattern of a language. -/
def languageConventions (language : String) : Symbols × String × String :=
  match language with
  | "en" | "ja" => (rootSymbols, "\u00a4#,##0.00", "#,##0%")
  | "de" | "es" => (commaSymbols, "#,##0.00\u00a0\u00a4", "#,##0\u00a0%")
  | "fr" =>
    ({ commaSymbols with grouping := '\u202f' }, "#,##0.00\u00a0\u00a4", "#,##0\u00a0%")
  | "it" => (commaSymbols, "#,##0.00\u00a0\u00a4", "#,##0%")
  | "pt" => (commaSymbols, "\u00a4\u00a0#,##0.00", "#,##0%")
  | "nl" => (commaSymbols, "\u00a4\u00a0#,##0.00;\u00a4\u00a0-#,##0.00", "#,##0%")
  | _ => (rootSymbols, "\u00a4\u00a0#,##0.00", "#,##0%")

/-- The currency symbol of a region and the places of its amounts. -/
def currencyOf (region : Option String) : String × Nat :=
  match region with
  | some "US" | some "CA" | some "AU" | some "AR" | some "MX" | some "CO" => ("$", 2)
  | some "CL" => ("$", 0)
  | some "GB" => ("\u00a3", 2)
  | some "DE" | some "FR" | some "ES" | some "IT" | some "NL" | some "AT" | some "BE" | some "IE"
  | some "PT" => ("\u20ac", 2)
  | some "BR" => ("R$", 2)
  | some "JP" => ("\uffe5", 0)
  | some "CH" => ("CHF", 2)
  | _ => ("\u00a4", 2)

/-- Symbols and patterns follow the language, the currency follows the region. -/
def conventions (l : Locale) : Conventions :=
  let (symbols, currencyPattern, percentPattern) := languageConventions l.language
  let (currency, places) := currencyOf l.region
  ⟨{ symbols with currency }, currencyPattern, percentPattern, places⟩

end Locale

end Reckoner
