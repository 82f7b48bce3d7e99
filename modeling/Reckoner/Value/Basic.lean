import Reckoner.Decimal
import Reckoner.Kind
import Reckoner.Named

namespace Reckoner

/-- An argument or a result. -/
inductive Value
  | byte (n : Int8)
  | short (n : Int16)
  | integer (n : Int32)
  | long (n : Int64)
  | float (x : Single)
  | double (x : Double)
  | decimal (d : Decimal)
  | string (text : String)
  | collection (items : List Value)
  | map (entries : Named Value)
  deriving Inhabited

namespace Value

def kind : Value → Kind
  | byte _ => .byte
  | short _ => .short
  | integer _ => .integer
  | long _ => .long
  | float _ => .float
  | double _ => .double
  | decimal _ => .decimal
  | string _ => .string
  | collection _ => .collection
  | map _ => .map

def isNumeric (v : Value) : Bool :=
  v.kind.isNumeric

def text? : Value → Option String
  | string text => some text
  | _ => none

/-- The number of an integral value. -/
def whole? : Value → Option Int64
  | byte n => some n.toInt64
  | short n => some n.toInt64
  | integer n => some n.toInt64
  | long n => some n
  | _ => none

/-- The nearest double of a numeric value. -/
def double? : Value → Option Double
  | float x => some x.convert
  | double x => some x
  | decimal d => some d.toBinary
  | v => v.whole?.map fun n => Binary.ofInt n.toInt

/-- The decimal of a finite numeric value; floating point numbers stand for their shortest text. -/
def toExact? : Value → Option Exact
  | float x => x.toExact?
  | double x => x.toExact?
  | decimal d => some d.toExact
  | v => v.whole?.map fun n => Exact.ofInt n.toInt

/-- A total: a decimal where one has exactly this value, and the nearest double elsewhere. -/
def ofExact (x : Exact) : Value :=
  match Decimal.ofExact? x with
  | some d => decimal d
  | none => double x.toBinary

end Value

end Reckoner
