import Reckoner.Binary.Elementary
import Reckoner.Evaluation.Arguments
import Reckoner.Evaluation.Log
import Reckoner.Value.Text
import Reckoner.Word

namespace Reckoner

/-- Integer arithmetic that fails instead of wrapping around. -/
inductive ExactOperation
  | add
  | subtract
  | multiply
  | negate
  deriving DecidableEq

/-- The result in 64 bits, if it is one of them. A negation has one operand, the other is not used. -/
def ExactOperation.result? : ExactOperation → Int64 → Int64 → Option Int64
  | add, x, y => int64? (x.toInt + y.toInt)
  | subtract, x, y => int64? (x.toInt - y.toInt)
  | multiply, x, y => int64? (x.toInt * y.toInt)
  | negate, x, _ => int64? (-x.toInt)

/-- An operation of the standard library. -/
inductive Operation
  | unary (g : Double → Double)
  | binary (g : Double → Double → Double)
  | exact (op : ExactOperation)
  | abs
  | round
  | max
  | min
  | floorDiv
  | floorMod
  | getExponent
  | scalb

namespace Operation

def arity : Operation → Nat
  | unary _ | exact .negate | abs | round | getExponent => 1
  | _ => 2

def standard : List (String × Operation) :=
  [("acos", unary (Binary.elementary Float.acos)),
   ("asin", unary (Binary.elementary Float.asin)),
   ("atan", unary (Binary.elementary Float.atan)),
   ("cbrt", unary (Binary.elementary Float.cbrt)),
   ("ceil", unary Binary.ceil),
   ("cos", unary (Binary.elementary Float.cos)),
   ("cosh", unary (Binary.elementary Float.cosh)),
   ("exp", unary (Binary.elementary Float.exp)),
   ("expm1", unary Binary.expm1),
   ("floor", unary Binary.floor),
   ("log", unary (Binary.elementary Float.log)),
   ("log10", unary (Binary.elementary Float.log10)),
   ("log1p", unary Binary.log1p),
   ("nextDown", unary Binary.nextDown),
   ("nextUp", unary Binary.nextUp),
   ("rint", unary Binary.rint),
   ("signum", unary Binary.signum),
   ("sin", unary (Binary.elementary Float.sin)),
   ("sinh", unary (Binary.elementary Float.sinh)),
   ("sqrt", unary Binary.sqrt),
   ("tan", unary (Binary.elementary Float.tan)),
   ("tanh", unary (Binary.elementary Float.tanh)),
   ("toDegrees", unary Binary.toDegrees),
   ("toRadians", unary Binary.toRadians),
   ("ulp", unary Binary.ulp),
   ("atan2", binary (Binary.elementary₂ Float.atan2)),
   ("copySign", binary Binary.copySign),
   ("hypot", binary Binary.hypot),
   ("nextAfter", binary Binary.nextAfter),
   ("pow", binary (Binary.elementary₂ Float.pow)),
   ("IEEEremainder", binary Binary.ieeeRemainder),
   ("addExact", exact .add),
   ("subtractExact", exact .subtract),
   ("multiplyExact", exact .multiply),
   ("negateExact", exact .negate),
   ("abs", abs),
   ("round", round),
   ("max", max),
   ("min", min),
   ("floorDiv", floorDiv),
   ("floorMod", floorMod),
   ("getExponent", getExponent),
   ("scalb", scalb)]

/-- Whether a value is an integer of at most 32 bits. -/
def isNarrow (v : Value) : Bool :=
  v.kind == .byte || v.kind == .short || v.kind == .integer

/-- A result of 64 bits in the width of the arguments that it comes from. -/
def exactResult (name : String) (narrow : Bool) (result : Option Int64) : Except EvalError Value :=
  if narrow then
    match result.bind fun n => int32? n.toInt with
    | some n => .ok (.integer n)
    | none => .error (.evaluation name .integerOverflow)
  else
    match result with
    | some n => .ok (.long n)
    | none => .error (.evaluation name .longOverflow)

/-- Arithmetic in the width of the arguments: 32 bits if all fit them, else 64. -/
def runExact (name : String) (op : ExactOperation) (args : List Value) :
    Except EvalError Value := do
  let x ← longArgument name args 0
  let y ← if args[1]?.isSome then longArgument name args 1 else pure 0
  exactResult name (args.all isNarrow) (op.result? x y)

/-- The magnitude of an integer in its own kind, where the least one is its own negative. -/
def runAbs (name : String) (args : List Value) : Except EvalError Value := do
  match ← argument name args 0 with
  | .byte n => return .byte (if n < 0 then -n else n)
  | .short n => return .short (if n < 0 then -n else n)
  | .integer n => return .integer (if n < 0 then -n else n)
  | .long n => return .long (if n < 0 then -n else n)
  | _ => return .double (← doubleArgument name args 0).abs

/-- The argument that the other one compares with as `wanted`, the first if neither does. Two
integers give a long; a NaN takes over. -/
def runExtremum (name : String) (wanted : Ordering) (args : List Value) :
    Except EvalError Value := do
  match (← argument name args 0).whole?, (← argument name args 1).whole? with
  | some x, some y => return .long (if compare y.toInt x.toInt = wanted then y else x)
  | _, _ =>
    let x ← doubleArgument name args 0
    let y ← doubleArgument name args 1
    match y.compare? x with
    | none => return .double (.nan false)
    | some order => return .double (if order = wanted then y else x)

/-- Whether cutting a quotient toward zero leaves more than the quotient. -/
def isCutUp (x y : Int64) : Bool :=
  x % y != 0 && decide (x < 0) != decide (y < 0)

/-- The quotient rounded down. The least word has no quotient by minus one and stays as it is. -/
def floorQuotient (x y : Int64) : Int64 :=
  if isCutUp x y then x / y - 1 else x / y

/-- What the quotient rounded down leaves. -/
def floorRemainder (x y : Int64) : Int64 :=
  x - floorQuotient x y * y

def divisor (name : String) (args : List Value) : Except EvalError Int64 := do
  let y ← longArgument name args 1
  if y = 0 then .error (.evaluation name .zeroDivisor) else return y

def run (name : String) (op : Operation) (args : List Value) : Except EvalError Value := do
  match op with
  | unary g => return .double (g (← doubleArgument name args 0))
  | binary g =>
    let x ← doubleArgument name args 0
    let y ← doubleArgument name args 1
    return .double (g x y)
  | exact op => runExact name op args
  | abs => runAbs name args
  | round =>
    let x ← doubleArgument name args 0
    return .long (Int64.ofInt (x.roundClamped Int64.minValue.toInt Int64.maxValue.toInt))
  | max => runExtremum name .gt args
  | min => runExtremum name .lt args
  | floorDiv =>
    let x ← longArgument name args 0
    let y ← divisor name args
    return .long (floorQuotient x y)
  | floorMod =>
    let x ← longArgument name args 0
    let y ← divisor name args
    return .long (floorRemainder x y)
  | getExponent => return .integer (Int32.ofInt (← doubleArgument name args 0).exponent)
  | scalb =>
    let x ← doubleArgument name args 0
    let n ← longArgument name args 1
    return .double (x.scalb n.toInt)

/-- Runs the operation of a name if it takes so many arguments, and records its result. -/
def invoke (name : String) (args : List Value) : Outcome :=
  match standard.lookup name with
  | some op =>
    if op.arity = args.length then
      match op.run name args with
      | .ok v => ⟨[.invokedOperation name v.text], .ok v⟩
      | .error error => ⟨[], .error error⟩
    else ⟨[], .error (.unknownFunction name args.length)⟩
  | none => ⟨[], .error (.unknownFunction name args.length)⟩

theorem invoke_result {name : String} {op : Operation} {args : List Value}
    (hname : standard.lookup name = some op) (harity : op.arity = args.length) :
    (invoke name args).result = op.run name args := by
  simp only [invoke, hname, if_pos harity]
  cases op.run name args with
  | ok v => rfl
  | error error => rfl

/-- Doubles are passed on as they are. -/
theorem invoke_unary {name : String} {g : Double → Double}
    (hname : standard.lookup name = some (unary g)) (x : Double) :
    (invoke name [.double x]).result = .ok (.double (g x)) := by
  rw [invoke_result hname rfl]
  rfl

theorem invoke_binary {name : String} {g : Double → Double → Double}
    (hname : standard.lookup name = some (binary g)) (x y : Double) :
    (invoke name [.double x, .double y]).result = .ok (.double (g x y)) := by
  rw [invoke_result hname rfl]
  rfl

end Operation

namespace Operations

/-- The operations of a conventional mathematics library. -/
def standard : Operations where
  names := Operation.standard.map Prod.fst
  invoke := Operation.invoke

end Operations

end Reckoner
