import Reckoner.Binary.Basic

namespace Reckoner

namespace Binary

/-- The sign in the machine's word for a number. -/
def signBit : Nat := Nat.pow 2 63

/-- The machine's word for a number: the sign and below it the magnitude. -/
def bits (x : Double) : UInt64 :=
  let sign := if x.isNegative then signBit else 0
  UInt64.ofNat (sign + x.magnitude)

/-- The number of a sign and a magnitude. The magnitudes past infinity are NaN. -/
def ofMagnitude {f : BinaryFormat} (negative : Bool) (magnitude : Nat) : Binary f :=
  if h : magnitude < f.ranks then finite negative ⟨magnitude, h⟩
  else if magnitude = f.ranks then infinite negative
  else nan negative

/-- The number that a word is. -/
def ofBits (word : UInt64) : Double :=
  ofMagnitude (signBit ≤ word.toNat) (word.toNat % signBit)

/-- The next number up. That is the next word, or for a negative number the word before; infinity
and NaN stay. -/
def nextUp (x : Double) : Double :=
  if x.isNaN ∨ x = infinite false then x
  else
    match compare x.signedMagnitude 0 with
    | .eq => ofBits 1
    | .gt => ofBits (x.bits + 1)
    | .lt => ofBits (x.bits - 1)

def nextDown (x : Double) : Double :=
  x.neg.nextUp.neg

/-- The neighbour of `start` on the side of `direction`, which itself is the answer when the two are
equal. -/
def nextAfter (start direction : Double) : Double :=
  match start.compare? direction with
  | none => nan false
  | some .eq => direction
  | some .lt => start.nextUp
  | some .gt => start.nextDown

end Binary

end Reckoner
