import Reckoner.Binary.Arithmetic
import Reckoner.Binary.Bits

namespace Reckoner

namespace Binary

/-- The machine's number with the same word. -/
def toFloat (x : Double) : Float :=
  Float.ofBits x.bits

def ofFloat (x : Float) : Double :=
  ofBits x.toBits

/-- A function of the machine's mathematics library. -/
def elementary (g : Float → Float) (x : Double) : Double :=
  let y := ofFloat (g x.toFloat)
  if y.isNaN then invalid x x else y

def elementary₂ (g : Float → Float → Float) (x y : Double) : Double :=
  let z := ofFloat (g x.toFloat y.toFloat)
  if z.isNaN then invalid x y else z

/-- `exp x - 1`. The rounding error of `exp x` near one is taken out by the logarithm of the rounded
value, which has the same error. -/
def expm1 : Double → Double :=
  elementary fun x =>
    let u := x.exp
    if u == 1 then x
    else if u - 1 == -1 then -1
    else if u.isInf then u
    else (u - 1) * (x / u.log)

/-- `log (1 + x)`, corrected for the rounding of `1 + x` in the same way. -/
def log1p : Double → Double :=
  elementary fun x =>
    let u := 1 + x
    if u == 1 then x
    else if u.isInf then u.log
    else u.log * (x / (u - 1))

def toDegrees (x : Double) : Double :=
  x.mul (ofDecimal false 5729577951308232 (-14))

def toRadians (x : Double) : Double :=
  x.mul (ofDecimal false 17453292519943295 (-18))

end Binary

end Reckoner
