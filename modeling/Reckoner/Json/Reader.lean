import Reckoner.Binary.Arithmetic
import Reckoner.Json.Basic
import Reckoner.Json.Tree
import Reckoner.Named
import Reckoner.Word

namespace Reckoner

namespace JsonUnit

/-- The text of a string. Two units may stand for one character, as a high surrogate and a low one;
a surrogate alone stands for none. -/
def text? : List JsonUnit → Option (List Char)
  | [] => some []
  | char c :: rest => (text? rest).map (c :: ·)
  | code high :: rest =>
    if 0xd800 ≤ high ∧ high < 0xdc00 then
      match rest with
      | code low :: rest =>
        if 0xdc00 ≤ low ∧ low < 0xe000 then
          (text? rest).map (Char.ofNat (0x10000 + (high - 0xd800) * 0x400 + (low - 0xdc00)) :: ·)
        else none
      | _ => none
    else if 0xdc00 ≤ high ∧ high < 0xe000 then none
    else (text? rest).map (Char.ofNat high :: ·)

def string? (units : List JsonUnit) : Option String :=
  (text? units).map String.ofList

end JsonUnit

namespace JsonNumeral

/-- Appends digits to a significand of 64 bits, as far as they fit; the other ones are left over. -/
def significand (n : Nat) : List Char → Nat × List Char
  | [] => (n, [])
  | c :: rest =>
    let next := 10 * n + (c.toNat - '0'.toNat)
    if next < UInt64.size then significand next rest else (n, c :: rest)

/-- `x * 10 ^ exponent` in the arithmetic of doubles, by one factor of at most `10 ^ 308`; below
that range the number is divided by `10 ^ 308` first, which four times leaves nothing of it. There
is no result past the range. -/
def scale? (x : Double) (exponent : Int) : Nat → Option Double
  | 0 => some x
  | steps + 1 =>
    if 0 ≤ exponent then
      if 308 < exponent then if x.magnitude = 0 then some x else none
      else
        let scaled := x.mul (Binary.ofDecimal false 1 exponent)
        if scaled.isFinite then some scaled else none
    else if -308 ≤ exponent then some (x.div (Binary.ofDecimal false 1 (-exponent)))
    else if x.magnitude = 0 then some x
    else scale? (x.div (Binary.ofDecimal false 1 308)) (exponent + 308) steps

/-- The double of a number with a fraction, an exponent, or too many digits: the leading digits that
fit 64 bits are rounded to a double, which is then scaled. A number past the range has none. -/
def double? (n : JsonNumeral) : Option Double :=
  let (whole, skipped) := significand 0 n.whole
  let (digits, unread) := significand whole n.fraction
  let places : Int := (n.fraction.length - unread.length : Nat)
  let written : Int :=
    match n.exponent with
    | none => 0
    | some (negative, digits) =>
      let value : Int := Nat.ofDigitChars 10 digits 0
      if negative then -value else value
  let exponent := skipped.length - places + written
  (scale? (Binary.ofInt digits) exponent 4).map fun x => if n.negative then x.neg else x

/-- A whole number as far as 64 bits hold it; a negative zero is not one. -/
def whole? (n : JsonNumeral) : Option JsonNumber :=
  if n.hasFraction || n.exponent.isSome then none
  else
    let magnitude := Nat.ofDigitChars 10 n.whole 0
    if n.negative then
      match int64? (-magnitude) with
      | some word => if below : word < 0 then some (.negative word below) else none
      | none => none
    else if magnitude < UInt64.size then some (.natural (UInt64.ofNat magnitude))
    else none

def number? (n : JsonNumeral) : Option JsonNumber :=
  match n.whole?, n.double? with
  | some whole, _ => some whole
  | none, some x => if finite : x.isFinite then some (.double x finite) else none
  | none, none => none

end JsonNumeral

namespace JsonTree

/-- The depth to which arrays and objects may be nested. -/
def maxDepth : Nat := 127

mutual

/-- The value of a text. Members are sorted by key, and the last one of a key counts. -/
def json? (depth : Nat) : JsonTree → Option Json
  | null => some .null
  | boolean b => some (.boolean b)
  | number n => n.number?.map .number
  | string units => (JsonUnit.string? units).map .string
  | array items => if depth = 0 then none else (items? (depth - 1) items).map .array
  | object members =>
    if depth = 0 then none
    else (members? (depth - 1) members).map fun members => .object (Named.ofList members).sorted

def items? (depth : Nat) : List JsonTree → Option (List Json)
  | [] => some []
  | item :: rest => do return (← item.json? depth) :: (← items? depth rest)

def members? (depth : Nat) : List (List JsonUnit × JsonTree) → Option (List (String × Json))
  | [] => some []
  | (key, item) :: rest => do
    return (← JsonUnit.string? key, ← item.json? depth) :: (← members? depth rest)

end

end JsonTree

/-- Reads a JSON text. -/
def Json.read? (text : String) : Option Json := do
  (← JsonTree.read? text).json? JsonTree.maxDepth

end Reckoner
