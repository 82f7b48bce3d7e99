import Reckoner.Locale

namespace Reckoner

/-- One sign of the text before or after the number. -/
inductive AffixPart
  | literal (c : Char)
  | percent
  | perMille
  | currency
  | minus
  deriving DecidableEq

namespace AffixPart

def render (symbols : Symbols) : AffixPart → List Char
  | literal c => [c]
  | percent => [symbols.percent]
  | perMille => [symbols.perMille]
  | currency => symbols.currency.toList
  | minus => [symbols.minus]

/-- The power of ten by which a sign scales the number. -/
def multiplier? : AffixPart → Option Nat
  | percent => some 2
  | perMille => some 3
  | _ => none

end AffixPart

/-- What stands before and after the number. -/
structure Affixes where
  before : List AffixPart
  after : List AffixPart
  deriving DecidableEq

def renderAffix (symbols : Symbols) (affix : List AffixPart) : List Char :=
  affix.flatMap (AffixPart.render symbols)

/-- A compiled pattern. Without a negative part of its own, a negative number has a minus sign
before everything else. -/
structure Pattern where
  source : String
  positive : Affixes
  negative : Option Affixes
  minInteger : Nat
  maxInteger : Nat
  minFraction : Nat
  maxFraction : Nat
  /-- Digits in a group; zero stands for no groups. -/
  groupSize : Nat
  /-- Whether the decimal separator is written without a fraction too. -/
  alwaysPoint : Bool
  /-- Least digits of the exponent; without them numbers are written plainly. -/
  exponentDigits : Option Nat
  /-- The number is multiplied by this power of ten before it is written. -/
  multiplier : Nat
  deriving DecidableEq

namespace Pattern

def withPlaces (p : Pattern) (places : Nat) : Pattern :=
  { p with minFraction := places, maxFraction := places, alwaysPoint := false }

def affixes (p : Pattern) (negative : Bool) : Affixes :=
  if negative then p.negative.getD { p.positive with before := .minus :: p.positive.before }
  else p.positive

end Pattern

end Reckoner
