import Reckoner.Binary.Shortest
import Reckoner.Named
import Reckoner.Word

namespace Reckoner

/-- A number of JSON. It is kept whole if it is a whole number that 64 bits hold, without a sign or
below zero with one, and as a finite double if it is not. -/
inductive JsonNumber
  | natural (n : UInt64)
  | negative (n : Int64) (below : n < 0)
  | double (x : Double) (finite : x.isFinite)

namespace JsonNumber

def ofLong (n : Int64) : JsonNumber :=
  if below : n < 0 then negative n below else natural n.toUInt64

/-- The whole number in 64 bits with a sign. -/
def long? : JsonNumber → Option Int64
  | natural n => int64? n.toNat
  | negative n _ => some n
  | double _ _ => none

/-- The nearest double. -/
def double? : JsonNumber → Option Double
  | natural n => some (Binary.ofInt n.toNat)
  | negative n _ => some (Binary.ofInt n.toInt)
  | double x _ => some x

def text : JsonNumber → String
  | natural n => toString n
  | negative n _ => toString n
  | double x _ => x.plain

end JsonNumber

/-- A JSON value. -/
inductive Json
  | null
  | boolean (b : Bool)
  | number (n : JsonNumber)
  | string (text : String)
  | array (items : List Json)
  | object (members : Named Json)
  deriving Inhabited

namespace Json

/-- A character inside a string: quotes, backslashes and control characters are escaped. -/
def escape (c : Char) : List Char :=
  if c = '\x22' ∨ c = '\\' then ['\\', c]
  else if c = '\x08' then ['\\', 'b']
  else if c = '\x0c' then ['\\', 'f']
  else if c = '\n' then ['\\', 'n']
  else if c = '\r' then ['\\', 'r']
  else if c = '\t' then ['\\', 't']
  else if c.toNat < 0x20 then
    let digits := Nat.toDigits 16 c.toNat
    '\\' :: 'u' :: List.replicate (4 - digits.length) '0' ++ digits
  else [c]

def quoted (s : String) : String :=
  String.ofList ('\x22' :: s.toList.flatMap escape ++ ['\x22'])

mutual

/-- The text without blanks, members in their order. -/
def compact : Json → String
  | null => "null"
  | boolean b => if b then "true" else "false"
  | number n => n.text
  | string text => quoted text
  | array items => "[" ++ ",".intercalate (compactItems items) ++ "]"
  | object ⟨names, _, thing⟩ =>
    let members := names.attach.map fun ⟨name, h⟩ => quoted name ++ ":" ++ (thing name h).compact
    "\x7b" ++ ",".intercalate members ++ "\x7d"

def compactItems : List Json → List String
  | [] => []
  | item :: rest => item.compact :: compactItems rest

end

mutual

/-- The value with the members of its objects in ascending order of the keys. -/
def sorted : Json → Json
  | array items => array (sortedItems items)
  | object ⟨names, distinct, thing⟩ =>
    object (Named.mk names distinct fun name h => (thing name h).sorted).sorted
  | j => j

def sortedItems : List Json → List Json
  | [] => []
  | item :: rest => item.sorted :: sortedItems rest

end

end Json

end Reckoner
