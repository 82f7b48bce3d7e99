import Reckoner.Binary.Rounding

namespace Reckoner

/-- An unsigned decimal `coefficient * 10 ^ exponent`. -/
structure Magnitude where
  coefficient : Nat
  exponent : Int
  deriving DecidableEq

namespace Magnitude

/-- The same value without trailing zeros in the coefficient; zero has the exponent zero. -/
def strip (m : Magnitude) : Magnitude :=
  if m.coefficient = 0 then ⟨0, 0⟩
  else if m.coefficient % 10 = 0 then strip ⟨m.coefficient / 10, m.exponent + 1⟩
  else m
termination_by m.coefficient
decreasing_by omega

/-- Digits without an exponent. All digits of the coefficient are kept, zeros fill up to a point. -/
def plain (m : Magnitude) : List Char :=
  let digits := Nat.toDigits 10 m.coefficient
  if 0 ≤ m.exponent then digits ++ List.replicate m.exponent.toNat '0'
  else
    let places := (-m.exponent).toNat
    let padded := List.replicate (places + 1 - digits.length) '0' ++ digits
    padded.take (padded.length - places) ++ '.' :: padded.drop (padded.length - places)

/-- One digit, the others after a point, and the exponent of the first. -/
def scientific (m : Magnitude) : List Char :=
  let digits := Nat.toDigits 10 m.coefficient
  let lead := m.exponent + (digits.length - 1 : Nat)
  let body := if digits.length = 1 then digits else digits.take 1 ++ '.' :: digits.drop 1
  body ++ 'e' :: (toString lead).toList

end Magnitude

namespace BinaryFormat

/-- The exact decimal value of a rank; a negative power of two is that power of five among as many
decimal places. -/
def expansion (f : BinaryFormat) (rank : Nat) : Magnitude :=
  ⟨f.units rank * Nat.pow 5 f.unitBits, -f.unitBits⟩

/-- Whether a decimal is read as the magnitude of a rank. -/
def reads (f : BinaryFormat) (rank : Nat) (m : Magnitude) : Bool :=
  f.nearestRank (m.coefficient * Nat.pow 10 m.exponent.toNat * f.scale)
    (Nat.pow 10 (-m.exponent).toNat) == rank

/-- The multiple of `10 ^ exponent` that is read as the magnitude of a rank, if there is one. Only
the two next to the magnitude can be; the nearer one is taken, and the upper one of two as near. -/
def onGrid? (f : BinaryFormat) (rank : Nat) (exponent : Int) : Option Magnitude :=
  let num := f.units rank * Nat.pow 10 (-exponent).toNat
  let den := f.scale * Nat.pow 10 exponent.toNat
  let below : Magnitude := ⟨num / den, exponent⟩
  let above : Magnitude := ⟨num / den + 1, exponent⟩
  match f.reads rank below, f.reads rank above with
  | true, true => some (if 2 * (num % den) < den then below else above)
  | true, false => some below
  | false, true => some above
  | false, false => none

/-- The first grid with a hit, from `count` grids above the one of the unit on, where every
magnitude lies on the grid. -/
def firstOnGrid (f : BinaryFormat) (rank : Nat) : Nat → Magnitude
  | 0 => f.expansion rank
  | count + 1 =>
    match f.onGrid? rank (count + 1 - f.unitBits) with
    | some m => m
    | none => firstOnGrid f rank count

/-- A grid on which nothing but zero lies below the magnitude of a rank. -/
def coarseGrid (f : BinaryFormat) (rank : Nat) : Int :=
  let whole := f.units rank / f.scale
  if whole = 0 then 2 - decimalLength (f.scale / f.units rank) else decimalLength whole

/-- The fewest digits that are read back as the magnitude of a rank, the nearest of those. -/
def shortest (f : BinaryFormat) (rank : Nat) : Magnitude :=
  if rank = 0 then ⟨0, 0⟩
  else (f.firstOnGrid rank (f.coarseGrid rank + f.unitBits).toNat).strip

end BinaryFormat

namespace Binary

variable {f : BinaryFormat}

def signed (negative : Bool) (text : List Char) : String :=
  String.ofList (if negative then '-' :: text else text)

/-- The text of a number, given how to write a finite magnitude. -/
def render (finiteText : Nat → List Char) : Binary f → String
  | nan _ => "NaN"
  | infinite negative => signed negative ['i', 'n', 'f']
  | finite negative rank => signed negative (finiteText rank)

/-- The shortest digits, never with an exponent. -/
def plain : Binary f → String :=
  render fun rank => (f.shortest rank).plain

/-- The shortest digits, always with an exponent. -/
def scientific : Binary f → String :=
  render fun rank => (f.shortest rank).scientific

end Binary

end Reckoner
