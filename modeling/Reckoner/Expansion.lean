import Reckoner.Binary.Bits
import Reckoner.Exact

namespace Reckoner

namespace Exact

/-- A product so far times a power, taken one bit of the exponent at a time: what is left to be
multiplied is always a power of `square`. -/
def powerFrom (product square : Exact) (exponent : Nat) : Exact :=
  if exponent = 0 then product
  else
    let product := if exponent % 2 = 1 then product.mul square else product
    let rest := exponent / 2
    -- after the last bit no square is needed
    let square := if 0 < rest then square.mul square else square
    powerFrom product square rest
termination_by exponent
decreasing_by omega

/-- `base ^ exponent`. -/
def power (base : Exact) (exponent : Nat) : Exact :=
  powerFrom one base exponent

end Exact

namespace Binary

/-- The bit of a machine's word that a full significand has above its fraction. -/
def leadingBit : UInt64 := (1 : UInt64) <<< 52

/-- The exact decimal expansion of a finite double, without its sign. -/
def expansion (x : Double) : Exact :=
  let biased := (x.bits >>> 52) &&& 0x7ff
  let fraction := x.bits &&& (leadingBit - 1)
  let mantissa := if biased = 0 then fraction else fraction ||| leadingBit
  let exponent : Int := if biased = 0 then -1074 else biased.toNat - 1075
  -- a negative power of two is a power of `0.5`, which has as many places
  let base := if 0 ≤ exponent then Exact.ofInt 2 else ⟨5, -1⟩
  (Exact.ofInt mantissa.toNat).mul (base.power exponent.natAbs)

end Binary

end Reckoner
