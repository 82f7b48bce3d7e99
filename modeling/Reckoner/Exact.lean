import Reckoner.Binary.Shortest

namespace Reckoner

/-- A decimal of any size, `coefficient * 10 ^ exponent`. One number has many such forms. -/
structure Exact where
  coefficient : Int
  exponent : Int
  deriving DecidableEq

namespace Exact

def ofInt (n : Int) : Exact :=
  ⟨n, 0⟩

def zero : Exact :=
  ofInt 0

def one : Exact :=
  ofInt 1

def ofMagnitude (negative : Bool) (m : Magnitude) : Exact :=
  ⟨if negative then -(m.coefficient : Int) else m.coefficient, m.exponent⟩

def isZero (x : Exact) : Bool :=
  x.coefficient == 0

def isNegative (x : Exact) : Bool :=
  x.coefficient < 0

def magnitude (x : Exact) : Magnitude :=
  ⟨x.coefficient.natAbs, x.exponent⟩

/-- The coefficient for a smaller exponent. -/
def coefficientAt (x : Exact) (exponent : Int) : Int :=
  x.coefficient * Nat.pow 10 (x.exponent - exponent).toNat

def add (x y : Exact) : Exact :=
  let exponent := min x.exponent y.exponent
  ⟨x.coefficientAt exponent + y.coefficientAt exponent, exponent⟩

def mul (x y : Exact) : Exact :=
  ⟨x.coefficient * y.coefficient, x.exponent + y.exponent⟩

def compare (x y : Exact) : Ordering :=
  let exponent := min x.exponent y.exponent
  Ord.compare (x.coefficientAt exponent) (y.coefficientAt exponent)

/-- The form without trailing zeros. -/
def normalize (x : Exact) : Exact :=
  ofMagnitude x.isNegative x.magnitude.strip

/-- Digits without an exponent. -/
def plain (x : Exact) : String :=
  Binary.signed x.isNegative x.magnitude.plain

/-- Significant digits kept by division. -/
def precision : Nat := 100

/-- `1 / x` for a nonzero `x`, rounded to `precision` significant digits, halfway cases to the even
one. -/
def inverse (x : Exact) : Exact :=
  let divisor := x.coefficient.natAbs
  let places := decimalLength divisor - 1 + precision
  ofMagnitude x.isNegative ⟨roundHalfEven (Nat.pow 10 places) divisor, -places - x.exponent⟩

/-- How often a number must be made ten times as large before it reaches a divisor. -/
def placesToReach (num den : Nat) : Nat :=
  if num = 0 ∨ den ≤ num then 0 else placesToReach (num * 10) den + 1
termination_by den - num
decreasing_by omega

/-- `x / y` for a nonzero `y`. The quotient has its whole part from the coefficients and as many
more digits as reach `precision`; it is cut there and goes up from half on. -/
def div (x y : Exact) : Exact :=
  let num := x.coefficient.natAbs
  let den := y.coefficient.natAbs
  let first := placesToReach num den
  let places := first + (precision - decimalLength (num * Nat.pow 10 first / den))
  let quotient := (2 * num * Nat.pow 10 places + den) / (2 * den)
  ofMagnitude (x.isNegative != y.isNegative) ⟨quotient, x.exponent - y.exponent - places⟩

/-- The nearest binary number, infinite past the range. -/
def toBinary {f : BinaryFormat} (x : Exact) : Binary f :=
  Binary.ofDecimal x.isNegative x.coefficient.natAbs x.exponent

end Exact

/-- The exact value of the shortest text of a finite number, which is not the number itself: `0.1`
gives one tenth. -/
def Binary.toExact? {f : BinaryFormat} : Binary f → Option Exact
  | finite negative rank => some (Exact.ofMagnitude negative (f.shortest rank))
  | _ => none

end Reckoner
