import Reckoner.Pattern.Basic

namespace Reckoner

/-- What can be wrong with a pattern. -/
inductive PatternFault
  | empty
  | unterminatedQuote
  | specialInSuffix (c : Char)
  | hashAfterZero
  | zeroAfterHash
  | secondPoint
  | groupInFraction
  | noDigits
  | emptyGroup
  | emptyExponent
  | secondSeparator
  | severalMultipliers
  deriving DecidableEq

def PatternFault.message : PatternFault → String
  | empty => "empty pattern"
  | unterminatedQuote => "unterminated quote"
  | specialInSuffix c => "unquoted special character '" ++ c.toString ++ "' in suffix"
  | hashAfterZero => "'#' after '0' in integer part"
  | zeroAfterHash => "'0' after '#' in fraction part"
  | secondPoint => "multiple decimal separators"
  | groupInFraction => "grouping separator in fraction part"
  | noDigits => "missing digits"
  | emptyGroup => "grouping separator without digits after it"
  | emptyExponent => "exponent without digits"
  | secondSeparator => "more than one pattern separator"
  | severalMultipliers => "too many percent or per mille characters"

/-- A fault, and what was left of the pattern where it showed. -/
structure PatternHalt where
  fault : PatternFault
  rest : List Char

namespace Pattern

def quote : Char := '\x27'

/-- A sign outside quotes. -/
def partOf (c : Char) : AffixPart :=
  if c = '%' then .percent
  else if c = '\u2030' then .perMille
  else if c = Locale.currencySign then .currency
  else if c = '-' then .minus
  else .literal c

/-- Reads an affix as far as a character outside quotes that ends it. Two quotes stand for a quote
everywhere; `opened` is what began with the quote that is still open. -/
def readAffix (ends : Char → Bool) (opened : Option (List Char)) (text : List Char) :
    Except PatternHalt (List AffixPart × List Char) :=
  match opened, text with
  | none, [] => .ok ([], [])
  | some start, [] => .error ⟨.unterminatedQuote, start⟩
  | _, '\x27' :: '\x27' :: rest => do
    let (parts, left) ← readAffix ends opened rest
    return (.literal quote :: parts, left)
  | none, '\x27' :: rest => readAffix ends (some (quote :: rest)) rest
  | some _, '\x27' :: rest => readAffix ends none rest
  | none, c :: rest =>
    if ends c then .ok ([], c :: rest)
    else do
      let (parts, left) ← readAffix ends none rest
      return (partOf c :: parts, left)
  | some start, c :: rest => do
    let (parts, left) ← readAffix ends (some start) rest
    return (.literal c :: parts, left)

/-- The digits counted in the integer part; `group` counts those after the last grouping
separator. -/
structure IntegerPart where
  zeros : Nat
  hashes : Nat
  group : Option Nat

def readInteger (part : IntegerPart) : List Char → Except PatternHalt (IntegerPart × List Char)
  | '#' :: rest =>
    if part.zeros > 0 then .error ⟨.hashAfterZero, '#' :: rest⟩
    else readInteger { part with hashes := part.hashes + 1, group := part.group.map (· + 1) } rest
  | '0' :: rest =>
    readInteger { part with zeros := part.zeros + 1, group := part.group.map (· + 1) } rest
  | ',' :: rest => readInteger { part with group := some 0 } rest
  | rest => .ok (part, rest)

structure FractionPart where
  zeros : Nat
  hashes : Nat

def readFraction (part : FractionPart) : List Char → Except PatternHalt (FractionPart × List Char)
  | '0' :: rest =>
    if part.hashes > 0 then .error ⟨.zeroAfterHash, '0' :: rest⟩
    else readFraction { part with zeros := part.zeros + 1 } rest
  | '#' :: rest => readFraction { part with hashes := part.hashes + 1 } rest
  | '.' :: rest => .error ⟨.secondPoint, '.' :: rest⟩
  | ',' :: rest => .error ⟨.groupInFraction, ',' :: rest⟩
  | rest => .ok (part, rest)

/-- One of the two parts of a pattern. -/
structure Subpattern where
  affixes : Affixes
  integer : IntegerPart
  /-- There if the pattern has a point. -/
  fraction : Option FractionPart
  exponent : Option Nat

namespace Subpattern

def fractionZeros (s : Subpattern) : Nat :=
  s.fraction.elim 0 FractionPart.zeros

def fractionHashes (s : Subpattern) : Nat :=
  s.fraction.elim 0 FractionPart.hashes

/-- The fault of a part that was read to its end. -/
def fault? (s : Subpattern) : Option PatternFault :=
  if s.integer.zeros + s.integer.hashes + s.fractionZeros + s.fractionHashes = 0 then some .noDigits
  else if s.integer.group = some 0 then some .emptyGroup
  else if s.exponent = some 0 then some .emptyExponent
  else none

/-- The powers of ten of the signs around the number. -/
def multipliers (s : Subpattern) : List Nat :=
  (s.affixes.before ++ s.affixes.after).filterMap AffixPart.multiplier?

/-- The pattern whose first part this is. -/
def compiled (s : Subpattern) (source : String) (negative : Option Affixes) : Pattern where
  source
  positive := s.affixes
  negative
  minInteger := s.integer.zeros
  maxInteger := s.integer.zeros + s.integer.hashes
  minFraction := s.fractionZeros
  maxFraction := s.fractionZeros + s.fractionHashes
  groupSize := s.integer.group.getD 0
  alwaysPoint := s.fraction.isSome && s.fractionZeros + s.fractionHashes == 0
  exponentDigits := s.exponent
  multiplier := s.multipliers.headD 0

end Subpattern

def endsPrefix (c : Char) : Bool :=
  c ∈ [';', '0', '#', ',', '.']

def endsSuffix (c : Char) : Bool :=
  c ∈ [';', '0', '#', ',', '.', 'E']

/-- Reads one part, as far as a separator or the end. -/
def readSubpattern (text : List Char) : Except PatternHalt (Subpattern × List Char) := do
  let (before, rest) ← readAffix endsPrefix none text
  let (integer, rest) ← readInteger ⟨0, 0, none⟩ rest
  let (fraction, rest) ←
    match rest with
    | '.' :: rest => do
      let (part, rest) ← readFraction ⟨0, 0⟩ rest
      pure (some part, rest)
    | rest => pure (none, rest)
  let (exponent, rest) :=
    match rest with
    | 'E' :: rest => (some (rest.takeWhile (· == '0')).length, rest.dropWhile (· == '0'))
    | rest => (none, rest)
  let (after, rest) ← readAffix endsSuffix none rest
  let sub : Subpattern := ⟨⟨before, after⟩, integer, fraction, exponent⟩
  match rest with
  | ';' :: _ | [] =>
    match sub.fault? with
    | some fault => .error ⟨fault, rest⟩
    | none => .ok (sub, rest)
  | c :: _ => .error ⟨.specialInSuffix c, rest⟩

/-- Reads what follows the first part: nothing, or a separator and the negative part, which gives its
affixes only. -/
def readNegative : List Char → Except PatternHalt (Option Affixes)
  | [] => .ok none
  | _ :: text => do
    let (negative, rest) ← readSubpattern text
    if rest.isEmpty then return some negative.affixes else .error ⟨.secondSeparator, rest⟩

/-- Reads a whole pattern. A fault of the whole is shown at its start. -/
def read (source : String) : Except PatternHalt Pattern := do
  let text := source.toList
  if text.isEmpty then .error ⟨.empty, text⟩
  else
    let (positive, rest) ← readSubpattern text
    let negative ← readNegative rest
    if 1 < positive.multipliers.length then .error ⟨.severalMultipliers, text⟩
    else return positive.compiled source negative

end Pattern

end Reckoner
