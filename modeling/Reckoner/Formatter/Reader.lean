import Reckoner.Formatter.Basic
import Reckoner.Word

namespace Reckoner

/-- Digits read so far: their value, how many there are, and how many of them after the decimal
separator if there was one. -/
structure ReadDigits where
  coefficient : Nat
  count : Nat
  fraction : Option Nat

namespace ReadDigits

def empty : ReadDigits :=
  ⟨0, 0, none⟩

def push (d : ReadDigits) (c : Char) : ReadDigits :=
  ⟨10 * d.coefficient + (c.toNat - '0'.toNat), d.count + 1, d.fraction.map (· + 1)⟩

/-- The magnitude times a power of ten. -/
def magnitude (d : ReadDigits) (exponent : Int) : Magnitude :=
  ⟨d.coefficient, exponent - d.fraction.getD 0⟩

end ReadDigits

namespace Formatter

/-- Reads digits and separators as far as possible. Grouping separators count for nothing and end
with the decimal separator. -/
def readDigits (f : Formatter) (d : ReadDigits) : List Char → ReadDigits × List Char
  | [] => (d, [])
  | c :: rest =>
    if c.isDigit then f.readDigits (d.push c) rest
    else if c = f.symbols.decimal ∧ d.fraction = none then
      f.readDigits { d with fraction := some 0 } rest
    else if c = f.symbols.grouping ∧ 0 < f.pattern.groupSize ∧ d.fraction = none then
      f.readDigits d rest
    else (d, c :: rest)

/-- Reads an exponent, which is the exponent symbol, perhaps a minus sign, and digits. -/
def readExponent? (f : Formatter) (text : List Char) : Option (Int × List Char) := do
  let rest ← f.symbols.exponent.toList.isPrefixOf? text
  let (negative, rest) :=
    match rest with
    | c :: tail => if c = f.symbols.minus then (true, tail) else (false, rest)
    | [] => (false, rest)
  let digits := rest.takeWhile Char.isDigit
  if digits = [] then none
  else
    let value : Int := Nat.ofDigitChars 10 digits 0
    some (if negative then -value else value, rest.dropWhile Char.isDigit)

/-- Reads a number without a sign; `none` if it has no digit. -/
def readMagnitude? (f : Formatter) (text : List Char) : Option (Magnitude × List Char) :=
  let (digits, rest) := f.readDigits .empty text
  if digits.count = 0 then none
  else
    match f.readExponent? rest with
    | some (exponent, rest) => some (digits.magnitude exponent, rest)
    | none => some (digits.magnitude 0, rest)

/-- The sign whose prefix a text begins with, and the text after it. Of two that fit, the negative
one has to be longer. -/
def readSign? (f : Formatter) (text : List Char) : Option (Bool × List Char) :=
  let positive := (f.affixes false).1.isPrefixOf? text
  let negative := (f.affixes true).1.isPrefixOf? text
  match positive, negative with
  | some rest, some shorter =>
    some (if shorter.length < rest.length then (true, shorter) else (false, rest))
  | some rest, none => some (false, rest)
  | none, some rest => some (true, rest)
  | none, none => none

/-- Whole numbers of 64 bits are longs, all others are doubles. -/
def valueOf (n : Numeral) : Value :=
  match n.whole?.bind int64? with
  | some whole => if n.negative && n.isZero then .double n.toBinary else .long whole
  | none => .double n.toBinary

/-- Reads a number that a text begins with; on failure, what was left of the text there. -/
def readChars (f : Formatter) (text : List Char) : Except (List Char) Value :=
  if f.symbols.nan.toList.isPrefixOf text then .ok (.double (.nan false))
  else
    match f.readSign? text with
    | none => .error text
    | some (negative, rest) =>
      let suffix := (f.affixes negative).2
      match f.symbols.infinity.toList.isPrefixOf? rest with
      | some rest =>
        if suffix.isPrefixOf rest then .ok (.double (.infinite negative)) else .error rest
      | none =>
        match f.readMagnitude? rest with
        | none => .error rest
        | some (magnitude, rest) =>
          if suffix.isPrefixOf rest then
            .ok (valueOf ((Numeral.ofMagnitude negative magnitude).shift (-f.pattern.multiplier)))
          else .error rest

/-- Reads a number; what follows the suffix is not looked at. -/
def read (f : Formatter) (text : String) : Except FormatError Value :=
  match f.readChars text.toList with
  | .ok v => .ok v
  | .error rest => .error (.unparseable text (text.toList.length - rest.length))

end Formatter

end Reckoner
