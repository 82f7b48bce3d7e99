import Reckoner.Value.Basic

namespace Reckoner

/-- What a numeric value can be narrowed to. -/
inductive Width
  | byte
  | short
  | integer
  | long
  | float
  | double
  deriving DecidableEq

namespace Value

/-- The low 32 bits of an integer or of the whole part of a decimal; floating point numbers are
clamped to 32 bits. -/
def narrow32? : Value → Option Int32
  | float x => some (Int32.ofInt (x.truncateClamped Int32.minValue.toInt Int32.maxValue.toInt))
  | double x => some (Int32.ofInt (x.truncateClamped Int32.minValue.toInt Int32.maxValue.toInt))
  | decimal d => some (Int32.ofInt d.truncate)
  | v => v.whole?.map Int64.toInt32

def narrow64? : Value → Option Int64
  | float x => some (Int64.ofInt (x.truncateClamped Int64.minValue.toInt Int64.maxValue.toInt))
  | double x => some (Int64.ofInt (x.truncateClamped Int64.minValue.toInt Int64.maxValue.toInt))
  | decimal d => some (Int64.ofInt d.truncate)
  | v => v.whole?

/-- The nearest single; what is not floating point is rounded to a double first. -/
def single? : Value → Option Single
  | float x => some x
  | v => v.double?.map Binary.convert

/-- Narrows a numeric value. Bytes and shorts are the low bits of the 32-bit integer. -/
def narrow? (v : Value) : Width → Option Value
  | .byte => v.narrow32?.map fun n => byte n.toInt8
  | .short => v.narrow32?.map fun n => short n.toInt16
  | .integer => v.narrow32?.map integer
  | .long => v.narrow64?.map long
  | .float => v.single?.map float
  | .double => v.double?.map double

end Value

end Reckoner
