namespace Reckoner

/-- What a string of JSON is written with: characters, and 16-bit units given by number. -/
inductive JsonUnit
  | char (c : Char)
  | code (n : Nat)

/-- The digits of a number as they are written. -/
structure JsonNumeral where
  negative : Bool
  whole : List Char
  fraction : List Char
  hasFraction : Bool
  /-- The sign and the digits of the exponent. -/
  exponent : Option (Bool × List Char)

/-- A JSON text as it is written, before its numbers and strings are looked into. -/
inductive JsonTree
  | null
  | boolean (b : Bool)
  | number (n : JsonNumeral)
  | string (units : List JsonUnit)
  | array (items : List JsonTree)
  | object (members : List (List JsonUnit × JsonTree))

namespace JsonTree

def isBlank (c : Char) : Bool :=
  c == ' ' || c == '\n' || c == '\t' || c == '\r'

def skipBlanks (text : List Char) : List Char :=
  text.dropWhile isBlank

def hexValue? (c : Char) : Option Nat :=
  if c.isDigit then some (c.toNat - '0'.toNat)
  else if 'a' ≤ c ∧ c ≤ 'f' then some (c.toNat - 'a'.toNat + 10)
  else if 'A' ≤ c ∧ c ≤ 'F' then some (c.toNat - 'A'.toNat + 10)
  else none

/-- A character that an escape of two characters stands for. -/
def escaped? (c : Char) : Option Char :=
  if c = '\x22' ∨ c = '\\' ∨ c = '/' then some c
  else if c = 'b' then some '\x08'
  else if c = 'f' then some '\x0c'
  else if c = 'n' then some '\n'
  else if c = 'r' then some '\r'
  else if c = 't' then some '\t'
  else none

/-- Reads a string after its opening quote. -/
def readString? : List Char → Option (List JsonUnit × List Char)
  | [] => none
  | '\x22' :: rest => some ([], rest)
  | '\\' :: 'u' :: a :: b :: c :: d :: rest => do
    let high := (← hexValue? a) * 16 + (← hexValue? b)
    let low := (← hexValue? c) * 16 + (← hexValue? d)
    let (units, left) ← readString? rest
    return (.code (high * 256 + low) :: units, left)
  | '\\' :: c :: rest => do
    let meant ← escaped? c
    let (units, left) ← readString? rest
    return (.char meant :: units, left)
  | c :: rest =>
    if c.toNat < 0x20 then none
    else do
      let (units, left) ← readString? rest
      return (.char c :: units, left)

/-- Digits after a mark that asks for one at least. -/
def readDigits? (text : List Char) : Option (List Char × List Char) :=
  let digits := text.takeWhile Char.isDigit
  if digits = [] then none else some (digits, text.dropWhile Char.isDigit)

/-- Reads a number after its sign; a leading zero stands alone. -/
def readNumber? (negative : Bool) (text : List Char) : Option (JsonNumeral × List Char) := do
  let (whole, rest) ← readDigits? text
  if 1 < whole.length ∧ whole.head? = some '0' then none
  else
    let (fraction, hasFraction, rest) ←
      match rest with
      | '.' :: rest => do
        let (digits, rest) ← readDigits? rest
        pure (digits, true, rest)
      | rest => pure ([], false, rest)
    let (exponent, rest) ←
      match rest with
      | c :: tail =>
        if c = 'e' ∨ c = 'E' then do
          let (negative, tail) :=
            match tail with
            | '-' :: tail => (true, tail)
            | '+' :: tail => (false, tail)
            | tail => (false, tail)
          let (digits, tail) ← readDigits? tail
          pure (some (negative, digits), tail)
        else pure (none, c :: tail)
      | [] => pure (none, [])
    return (⟨negative, whole, fraction, hasFraction, exponent⟩, rest)

/-- Reads a value. A step into an array or object takes a character at least and two units of fuel, a
step along one takes a character and one unit, so twice the length of the text and one unit more is
fuel enough. -/
def readValue? : Nat → List Char → Option (JsonTree × List Char)
  | 0, _ => none
  | fuel + 1, text =>
    match skipBlanks text with
    | 'n' :: 'u' :: 'l' :: 'l' :: rest => some (null, rest)
    | 't' :: 'r' :: 'u' :: 'e' :: rest => some (boolean true, rest)
    | 'f' :: 'a' :: 'l' :: 's' :: 'e' :: rest => some (boolean false, rest)
    | '\x22' :: rest => do
      let (units, rest) ← readString? rest
      return (string units, rest)
    | '[' :: rest =>
      match skipBlanks rest with
      | ']' :: rest => some (array [], rest)
      | rest => do
        let (items, rest) ← readItems? fuel rest
        return (array items, rest)
    | '\x7b' :: rest =>
      match skipBlanks rest with
      | '\x7d' :: rest => some (object [], rest)
      | rest => do
        let (members, rest) ← readMembers? fuel rest
        return (object members, rest)
    | '-' :: rest => do
      let (n, rest) ← readNumber? true rest
      return (number n, rest)
    | rest => do
      let (n, rest) ← readNumber? false rest
      return (number n, rest)
where
  readItems? : Nat → List Char → Option (List JsonTree × List Char)
    | 0, _ => none
    | fuel + 1, text => do
      let (item, rest) ← readValue? fuel text
      match skipBlanks rest with
      | ',' :: rest => do
        let (items, rest) ← readItems? fuel rest
        return (item :: items, rest)
      | ']' :: rest => return ([item], rest)
      | _ => none
  readMembers? : Nat → List Char → Option (List (List JsonUnit × JsonTree) × List Char)
    | 0, _ => none
    | fuel + 1, text =>
      match skipBlanks text with
      | '\x22' :: rest => do
        let (key, rest) ← readString? rest
        match skipBlanks rest with
        | ':' :: rest => do
          let (item, rest) ← readValue? fuel rest
          match skipBlanks rest with
          | ',' :: rest => do
            let (members, rest) ← readMembers? fuel rest
            return ((key, item) :: members, rest)
          | '\x7d' :: rest => return ([(key, item)], rest)
          | _ => none
        | _ => none
      | _ => none

/-- Reads a text that is one value between blanks. -/
def read? (text : String) : Option JsonTree := do
  let (tree, rest) ← readValue? (2 * text.length + 1) text.toList
  if skipBlanks rest = [] then some tree else none

end JsonTree

end Reckoner
