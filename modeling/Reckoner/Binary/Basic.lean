namespace Reckoner

/-- The two binary floating point formats that values may have. -/
inductive BinaryFormat
  | single
  | double
  deriving DecidableEq

namespace BinaryFormat

/-- Explicit fraction bits of a significand; a normal significand has one bit more. -/
def fractionBits : BinaryFormat → Nat
  | single => 23
  | double => 52

/-- The ranks from one power of two to the next. -/
def binade (f : BinaryFormat) : Nat :=
  Nat.pow 2 f.fractionBits

/-- The stored exponent of the numbers from one to two. -/
def bias : BinaryFormat → Nat
  | single => 127
  | double => 1023

/-- Every finite value is a whole multiple of one unit, which is `2 ^ -unitBits`. -/
def unitBits : BinaryFormat → Nat
  | single => 149
  | double => 1074

/-- One unit is `1 / scale`. -/
def scale (f : BinaryFormat) : Nat :=
  Nat.pow 2 f.unitBits

/-- How many finite magnitudes there are; zero and the magnitudes below the first power of two that
has a full significand fill one binade. -/
def ranks (f : BinaryFormat) : Nat :=
  (2 * f.bias + 1) * f.binade

/-- The magnitude of a rank, in units: whole numbers as far as the significand reaches, and from
there on the spacing doubles after each binade. -/
def units (f : BinaryFormat) (rank : Nat) : Nat :=
  if rank < f.binade then rank
  else (f.binade + rank % f.binade) * Nat.pow 2 (rank / f.binade - 1)

theorem ranks_pos (f : BinaryFormat) : 0 < f.ranks := by
  cases f <;> decide

end BinaryFormat

/-- A binary floating point number. A finite one is a sign and a rank, which is the number of
magnitudes below its own. The sign of a NaN shows in the total order only. -/
inductive Binary (f : BinaryFormat)
  | nan (negative : Bool)
  | infinite (negative : Bool)
  | finite (negative : Bool) (rank : Fin f.ranks)
  deriving DecidableEq

abbrev Single := Binary .single

abbrev Double := Binary .double

namespace Binary

variable {f : BinaryFormat}

def zero (negative : Bool) : Binary f :=
  finite negative ⟨0, f.ranks_pos⟩

def isNaN : Binary f → Bool
  | nan _ => true
  | _ => false

def isFinite : Binary f → Bool
  | finite _ _ => true
  | _ => false

def isNegative : Binary f → Bool
  | nan negative | infinite negative | finite negative _ => negative

def withSign (negative : Bool) : Binary f → Binary f
  | nan _ => nan negative
  | infinite _ => infinite negative
  | finite _ rank => finite negative rank

def abs (x : Binary f) : Binary f :=
  x.withSign false

def neg (x : Binary f) : Binary f :=
  x.withSign (!x.isNegative)

def copySign (x y : Binary f) : Binary f :=
  x.withSign y.isNegative

/-- The signed value of a finite number, in units. -/
def units? : Binary f → Option Int
  | finite negative rank =>
    let magnitude : Int := f.units rank
    some (if negative then -magnitude else magnitude)
  | _ => none

/-- The number of ranks that a magnitude has below it; NaN lies above infinity. -/
def magnitude : Binary f → Nat
  | finite _ rank => rank
  | infinite _ => f.ranks
  | nan _ => f.ranks + 1

/-- The order by sign and magnitude: `-NaN < -∞ < … < -0 < +0 < … < +∞ < +NaN`. -/
def totalCompare (x y : Binary f) : Ordering :=
  match x.isNegative, y.isNegative with
  | true, false => .lt
  | false, true => .gt
  | false, false => compare x.magnitude y.magnitude
  | true, true => compare y.magnitude x.magnitude

/-- The signed rank, where both zeros are zero. -/
def signedMagnitude (x : Binary f) : Int :=
  if x.isNegative then -(x.magnitude : Int) else x.magnitude

/-- The numerical order: zeros are equal, and a NaN compares with nothing. -/
def compare? (x y : Binary f) : Option Ordering :=
  if x.isNaN || y.isNaN then none else some (compare x.signedMagnitude y.signedMagnitude)

end Binary

end Reckoner
