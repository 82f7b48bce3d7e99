import Reckoner.Binary.Rounding

namespace Reckoner

namespace Binary

variable {f : BinaryFormat}

/-- A NaN operand comes out as it is, the first one if there are two. A NaN that an operation itself
gives rise to is negative. -/
def invalid (x y : Binary f) : Binary f :=
  if x.isNaN then x else if y.isNaN then y else nan true

def add (x y : Binary f) : Binary f :=
  match x, y with
  | finite s a, finite t b =>
    let left : Int := if s then -(f.units a : Int) else f.units a
    let right : Int := if t then -(f.units b : Int) else f.units b
    let sum := left + right
    if sum = 0 then zero (s && t) else ofUnits (sum < 0) sum.natAbs 1
  | infinite s, finite _ _ => infinite s
  | finite _ _, infinite t => infinite t
  | infinite s, infinite t => if s = t then infinite s else invalid x y
  | _, _ => invalid x y

def sub (x y : Binary f) : Binary f :=
  x.add y.neg

def mul (x y : Binary f) : Binary f :=
  let negative := x.isNegative != y.isNegative
  match x, y with
  | finite _ a, finite _ b => ofUnits negative (f.units a * f.units b) f.scale
  | infinite _, finite _ b => if b.val = 0 then invalid x y else infinite negative
  | finite _ a, infinite _ => if a.val = 0 then invalid x y else infinite negative
  | infinite _, infinite _ => infinite negative
  | _, _ => invalid x y

def div (x y : Binary f) : Binary f :=
  let negative := x.isNegative != y.isNegative
  match x, y with
  | finite _ a, finite _ b =>
    if b.val ≠ 0 then ofRatio negative (f.units a) (f.units b)
    else if a.val ≠ 0 then infinite negative
    else invalid x y
  | infinite _, finite _ _ => infinite negative
  | finite _ _, infinite _ => zero negative
  | _, _ => invalid x y

/-- What the quotient cut toward zero leaves of `x`. -/
def rem (x y : Binary f) : Binary f :=
  match x, y with
  | finite negative a, finite _ b =>
    if b.val = 0 then invalid x y else ofUnits negative (f.units a % f.units b) 1
  | finite negative a, infinite _ => finite negative a
  | _, _ => invalid x y

/-- The distance to the next magnitude up, and for the last magnitude the distance down. -/
def ulp : Binary f → Binary f
  | nan _ => nan false
  | infinite _ => infinite false
  | finite _ rank =>
    let low := if rank.val + 1 < f.ranks then rank.val else rank.val - 1
    ofUnits false (f.units (low + 1) - f.units low) 1

/-- Zeros and NaN stay as they are. -/
def signum (x : Binary f) : Binary f :=
  if x.isNaN || x.magnitude == 0 then x else ofRatio x.isNegative 1 1

/-- Replaces the magnitude of a finite number by a whole one, keeping the sign. -/
def roundMagnitude (whole : Bool → Nat → Nat → Nat) : Binary f → Binary f
  | finite negative rank => ofRatio negative (whole negative (f.units rank) f.scale) 1
  | x => x

def floor (x : Binary f) : Binary f :=
  x.roundMagnitude fun negative num den => if negative then (num + den - 1) / den else num / den

def ceil (x : Binary f) : Binary f :=
  x.roundMagnitude fun negative num den => if negative then num / den else (num + den - 1) / den

/-- The nearest whole number, halfway cases to the even one. -/
def rint (x : Binary f) : Binary f :=
  x.roundMagnitude fun _ num den => roundHalfEven num den

/-- The nearest whole number, halfway cases to the one above, clamped to a range; a NaN gives
zero. -/
def roundClamped (low high : Int) (x : Binary f) : Int :=
  let whole := x.floor
  -- below zero the fraction may be rounded, but never across one half
  let up := ((x.sub whole).compare? (ofRatio false 1 2)).any Ordering.isGE
  (if up then whole.add (ofInt 1) else whole).truncateClamped low high

/-- What a divisor leaves of a number below twice the divisor, taken to the nearer multiple of the
divisor. Halfway between two multiples the even one is the nearer. -/
def nearestRest (divisor rest : Binary f) : Binary f :=
  let odd := (rest.compare? divisor).any Ordering.isGE
  let low := if odd then rest.sub divisor else rest
  -- the distance to the next multiple may be rounded where it is the greater one
  let order := low.compare? (divisor.sub low)
  if order = some .gt ∨ order = some .eq ∧ odd then low.sub divisor else low

/-- What the quotient `x / y` leaves when it is rounded to a whole number, halfway cases to the even
one. The quotient is not formed: what twice the divisor leaves tells whether it is odd. -/
def ieeeRemainder (x y : Binary f) : Binary f :=
  match x, y with
  | finite negative _, finite _ b =>
    if b.val = 0 then nan false
    else
      -- twice the divisor may be infinite, and then it leaves all of `x`
      let rest := (x.rem ((ofInt 2).mul y.abs)).abs
      let nearest := nearestRest y.abs rest
      if negative then nearest.neg else nearest
  | finite _ _, infinite _ => x
  | _, _ => nan false

/-- The number nearest to `2 ^ n`. -/
def twoPower (n : Int) : Binary f :=
  ofRatio false (Nat.pow 2 n.toNat) (Nat.pow 2 (-n).toNat)

/-- Multiplies by one factor so many times, and rounds each time. -/
def mulTimes (factor : Binary f) : Nat → Binary f → Binary f
  | 0, x => x
  | count + 1, x => mulTimes factor count (x.mul factor)

/-- `x * 2 ^ n` in steps of a thousand doublings or halvings. Beyond 2200 of them every finite
number has left the format. -/
def scalb (x : Double) (n : Int) : Double :=
  let n := max (-2200) (min 2200 n)
  -- the partial step goes first, so that only the last one can round
  mulTimes (twoPower (n.sign * 1000)) (n.natAbs / 1000) (x.mul (twoPower (n.tmod 1000)))

/-- The stored exponent without its bias: one past the greatest exponent for what is not finite, and
one below the least for zero and for numbers with a short significand. -/
def exponent (x : Binary f) : Int :=
  match x with
  | finite _ rank => (rank.val / f.binade : Nat) - (f.bias : Int)
  | _ => f.bias + 1

/-- Whether a number is finite with a full significand. -/
def isNormal : Binary f → Bool
  | finite _ rank => f.binade ≤ rank.val
  | _ => false

/-- The whole part of a square root, one bit pair at a time. -/
def squareRoot (n : Nat) : Nat :=
  if n = 0 then 0
  else
    let root := 2 * squareRoot (n / 4)
    if (root + 1) * (root + 1) ≤ n then root + 1 else root
termination_by n
decreasing_by omega

/-- The number nearest to the square root of `n` square units. The root is taken in half units,
among which all halfway points are; a quarter more stands for what it lacks of the true root. -/
def ofSquare (n : Nat) : Binary f :=
  let root := squareRoot (4 * n)
  let short := if root * root = 4 * n then 0 else 1
  ofUnits false (2 * root + short) 4

/-- The negative zero is its own root; a number below zero has none. -/
def sqrt : Binary f → Binary f
  | nan negative => nan negative
  | infinite negative => if negative then nan true else infinite false
  | finite negative rank =>
    if rank.val = 0 then zero negative
    else if negative then nan true
    else ofSquare (f.units rank * f.scale)

/-- The length of the vector `(x, y)`; an infinite side outweighs a NaN. -/
def hypot (x y : Binary f) : Binary f :=
  match x, y with
  | finite _ a, finite _ b => ofSquare (f.units a * f.units a + f.units b * f.units b)
  | infinite _, _ => infinite false
  | _, infinite _ => infinite false
  | _, _ => invalid x y

end Binary

end Reckoner
