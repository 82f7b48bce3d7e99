import Reckoner.Binary.Elementary
import Reckoner.Evaluation.Accumulator
import Reckoner.Value.Order

namespace Reckoner

inductive MeanKind
  | arithmetic
  | geometric
  | harmonic
  | median
  deriving DecidableEq

namespace MeanKind

def all : List MeanKind :=
  [arithmetic, geometric, harmonic, median]

def name : MeanKind → String
  | arithmetic => "arithmetic"
  | geometric => "geometric"
  | harmonic => "harmonic"
  | median => "median"

def ofName? (name : String) : Option MeanKind :=
  all.find? fun kind => kind.name == name

end MeanKind

/-- The root of an exact product. Products that no normal double is near to are rooted through the
logarithm of their leading digits. -/
def nthRoot (x : Exact) (count : Nat) : Double :=
  let root : Double := Binary.ofRatio false 1 count
  let direct : Double := x.toBinary
  if x.isZero then .zero false
  else if x.isNegative then .nan false
  else if direct.isNormal then Binary.elementary₂ Float.pow direct root
  else
    let digits := Nat.toDigits 10 x.coefficient.natAbs
    let leading := digits.take 17
    let value : Double := Binary.ofInt (Nat.ofDigitChars 10 leading 0)
    let places : Double := Binary.ofInt (digits.length - leading.length : Nat)
    let logarithm :=
      ((Binary.elementary Float.log10 value).add places).add (Binary.ofInt x.exponent)
    Binary.elementary₂ Float.pow (Binary.ofInt 10) (logarithm.mul root)

/-- The element in the upper middle of a collection in natural order, which is stable. Everything
has to be comparable with the first element. -/
def median (name : String) (v : Value) : Except EvalError Value :=
  match v with
  | .collection [] => .ok (.integer 0)
  | .collection [item] => .ok item
  | .collection (first :: rest) =>
    match rest.find? fun item => (first.naturalOrder item).isNone with
    | some item =>
      .error (.invalidArgumentType name 0 (.collectionOf first.kind) (.kind item.kind))
    | none =>
      let sorted := (first :: rest).mergeSort fun a b => a.naturalOrder b != some .gt
      .ok (sorted.getD (sorted.length / 2) first)
  | v => .ok v

/-- The kind that an argument names, the arithmetic mean if there is no argument. -/
def meanKind (name : String) : Option Value → Except EvalError MeanKind
  | none => .ok .arithmetic
  | some (.string variant) =>
    match MeanKind.ofName? variant with
    | some kind => .ok kind
    | none => .error (.evaluation name (.unknownMean variant))
  | some other => .error (.mismatch name 1 .string other)

/-- The mean of the leaves of the first argument, of the kind that the second one names. Without
leaves it is an integer zero. -/
def mean (name : String) (args : List Value) : Except EvalError Value := do
  let kind ← meanKind name args[1]?
  match args[0]? with
  | none => return .integer 0
  | some values =>
    match kind with
    | .median => median name values
    | .arithmetic =>
      let acc ← (Accumulator.start .zero .add).run name [values]
      if acc.count = 0 then return .integer 0
      else return .double (acc.total.div (.ofInt acc.count)).toBinary
    | .geometric =>
      let acc ← (Accumulator.start .one .multiply).run name [values]
      if acc.count = 0 then return .integer 0
      else return .double (nthRoot acc.total acc.count)
    | .harmonic =>
      let acc ← (Accumulator.start .zero .addReciprocal).run name [values]
      if acc.count = 0 then return .integer 0
      else if acc.total.isZero then .error (.evaluation name .divisionByZero)
      else return .double ((Exact.ofInt acc.count).div acc.total).toBinary

end Reckoner
