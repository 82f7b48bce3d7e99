import Reckoner.Binary.Basic

namespace Reckoner

/-- The whole number nearest to `num / den`; halfway cases go to the even one. -/
def roundHalfEven (num den : Nat) : Nat :=
  let quotient := num / den
  match compare (2 * (num % den)) den with
  | .lt => quotient
  | .eq => quotient + quotient % 2
  | .gt => quotient + 1

/-- The length of a number written in base ten. -/
def decimalLength (n : Nat) : Nat :=
  (Nat.toDigits 10 n).length

/-- The rank of the magnitude nearest to `num / den` units, without an upper end. The significand
keeps the leading bits; a carry out of it is the step to the next rank. -/
def BinaryFormat.nearestRank (f : BinaryFormat) (num den : Nat) : Nat :=
  let shift := (num / den).log2 - f.fractionBits
  shift * f.binade + roundHalfEven num (den * Nat.pow 2 shift)

namespace Binary

variable {f : BinaryFormat}

/-- The number nearest to `num / den` units: ties go to the even significand, and what would round
past the last finite magnitude is infinite. -/
def ofUnits (negative : Bool) (num den : Nat) : Binary f :=
  let rank := f.nearestRank num den
  if h : rank < f.ranks then finite negative ⟨rank, h⟩ else infinite negative

/-- The number nearest to `num / den`. -/
def ofRatio (negative : Bool) (num den : Nat) : Binary f :=
  ofUnits negative (num * f.scale) den

def ofInt (n : Int) : Binary f :=
  ofRatio (n < 0) n.natAbs 1

/-- The number nearest to `coefficient * 10 ^ exponent`. Magnitudes far outside the format are
decided by their decimal length alone. -/
def ofDecimal (negative : Bool) (coefficient : Nat) (exponent : Int) : Binary f :=
  let reach : Int := decimalLength coefficient + exponent
  if coefficient = 0 ∨ reach < -f.unitBits then zero negative
  else if f.unitBits < reach then infinite negative
  else ofRatio negative (coefficient * Nat.pow 10 exponent.toNat) (Nat.pow 10 (-exponent).toNat)

/-- The nearest number of another format. -/
def convert {g : BinaryFormat} : Binary f → Binary g
  | nan negative => nan negative
  | infinite negative => infinite negative
  | finite negative rank => ofRatio negative (f.units rank) f.scale

/-- The fraction dropped, the rest clamped to a range; a NaN gives zero. -/
def truncateClamped (low high : Int) : Binary f → Int
  | nan _ => 0
  | infinite negative => if negative then low else high
  | finite negative rank =>
    let whole : Int := f.units rank / f.scale
    max low (min high (if negative then -whole else whole))

end Binary

end Reckoner
