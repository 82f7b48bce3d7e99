import Reckoner.Exact

namespace Reckoner

/-- A decimal with a mantissa of 96 bits and at most 28 places. The places of a text are kept, so
that `1.0` and `1` are different forms of one number. -/
structure Decimal where
  mantissa : Int
  scale : Nat
  mantissa_lt : mantissa.natAbs < Nat.pow 2 96
  scale_le : scale ≤ 28
  deriving DecidableEq

namespace Decimal

def ofParts? (mantissa : Int) (scale : Nat) : Option Decimal :=
  if h : mantissa.natAbs < Nat.pow 2 96 ∧ scale ≤ 28 then some ⟨mantissa, scale, h.1, h.2⟩ else none

def toExact (d : Decimal) : Exact :=
  ⟨d.mantissa, -d.scale⟩

def toBinary {f : BinaryFormat} (d : Decimal) : Binary f :=
  d.toExact.toBinary

/-- The whole part; the fraction is dropped. -/
def truncate (d : Decimal) : Int :=
  d.mantissa.tdiv (Nat.pow 10 d.scale)

/-- The text with all places of the scale. -/
def plain (d : Decimal) : String :=
  d.toExact.plain

/-- The decimal of a number in the form that it has; zeros that are missing before the point are
filled in. Past 28 of them every number but zero is too large. -/
def ofForm? (x : Exact) : Option Decimal :=
  if x.exponent ≤ 0 then ofParts? x.coefficient (-x.exponent).toNat
  else if x.isZero then ofParts? 0 0
  else if 28 < x.exponent then none
  else ofParts? (x.coefficientAt 0) 0

/-- The decimal of a number, in its own form if that fits, else without trailing zeros. -/
def ofExact? (x : Exact) : Option Decimal :=
  (ofForm? x).or (ofForm? x.normalize)

end Decimal

end Reckoner
