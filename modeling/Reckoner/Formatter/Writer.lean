import Reckoner.Binary.Arithmetic
import Reckoner.Formatter.Basic

namespace Reckoner

namespace Formatter

/-- Puts a separator before each digit that has a whole number of groups from it to the end, except
the first digit. -/
def grouped (separator : Char) (size : Nat) : List Char → List Char
  | [] => []
  | c :: rest =>
    if 0 < size ∧ rest ≠ [] ∧ rest.length % size = 0 then
      c :: separator :: grouped separator size rest
    else c :: grouped separator size rest

/-- Zeros after digits, up to a length. -/
def filled (length : Nat) (text : List Char) : List Char :=
  text ++ List.replicate (length - text.length) '0'

/-- The digits of a rounded number without its sign. -/
def plainBody (f : Formatter) (groupSize : Nat) (n : Numeral) : List Char :=
  let integer := Numeral.padded f.pattern.minInteger n.integerDigits
  let fraction := filled f.pattern.minFraction n.fractionDigits
  let integer := if integer = [] ∧ fraction = [] then ['0'] else integer
  let point := if fraction ≠ [] ∨ f.pattern.alwaysPoint then [f.symbols.decimal] else []
  grouped f.symbols.grouping groupSize integer ++ point ++ fraction

/-- A mantissa with a fixed number of integer digits, and the exponent that goes with it. A carry
out of the mantissa moves into the exponent; zero has the exponent zero. -/
def mantissa (f : Formatter) (n : Numeral) : Numeral × Int :=
  if n.isZero then (n, 0)
  else
    let length : Int := max f.pattern.minInteger 1
    let rounded := (n.withIntegerLength length).round f.pattern.maxFraction
    (rounded.withIntegerLength length, n.integerLength - length + (rounded.integerLength - length))

def exponentText (f : Formatter) (minDigits : Nat) (exponent : Int) : List Char :=
  let sign := if exponent < 0 then [f.symbols.minus] else []
  f.symbols.exponent.toList ++ sign ++ Numeral.padded minDigits (Nat.toDigits 10 exponent.natAbs)

/-- The digits of a number, and whether it still is below zero after rounding. -/
def body (f : Formatter) (n : Numeral) : Bool × List Char :=
  match f.pattern.exponentDigits with
  | some minDigits =>
    let (rounded, exponent) := f.mantissa n
    (n.negative && !rounded.isZero, f.plainBody 0 rounded ++ f.exponentText minDigits exponent)
  | none =>
    let rounded := n.round f.pattern.maxFraction
    (n.negative && !rounded.isZero, f.plainBody f.pattern.groupSize rounded)

def withAffixes (f : Formatter) (negative : Bool) (body : List Char) : String :=
  let (before, after) := f.affixes negative
  String.ofList (before ++ body ++ after)

def writeNumeral (f : Formatter) (n : Numeral) : String :=
  let (negative, body) := f.body n
  f.withAffixes negative body

/-- Writes a number that is given by a plain text, scaled exactly. -/
def writePlain? (f : Formatter) (text : String) : Option String :=
  (Numeral.ofPlain? text.toList).map fun n => f.writeNumeral (n.shift f.pattern.multiplier)

/-- Writes a double, scaled by the pattern in the arithmetic of doubles. NaN has no affixes. -/
def writeDouble? (f : Formatter) (x : Double) : Option String :=
  match x.mul (Binary.ofDecimal false 1 f.pattern.multiplier) with
  | .nan _ => some f.symbols.nan
  | .infinite negative => some (f.withAffixes negative f.symbols.infinity.toList)
  | .finite negative rank => (Numeral.ofRank? negative rank).map f.writeNumeral

/-- What has no digits would be written as a NaN. -/
def writeDouble (f : Formatter) (x : Double) : String :=
  (f.writeDouble? x).getD f.symbols.nan

/-- Writes a numeric value; what is not floating point is scaled exactly. -/
def write? (f : Formatter) (v : Value) : Option String :=
  match v with
  | .float x => f.writeDouble? x.convert
  | .double x => f.writeDouble? x
  | .decimal d => f.writePlain? d.plain
  | v => v.whole?.bind fun n => f.writePlain? (toString n)

end Formatter

end Reckoner
