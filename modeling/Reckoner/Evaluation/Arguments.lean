import Reckoner.Evaluation.Error

namespace Reckoner

/-- The argument at an index. Arity is checked before arguments are looked at, so it is there. -/
def argument (name : String) (args : List Value) (index : Nat) : Except EvalError Value :=
  match args[index]? with
  | some v => .ok v
  | none => .error (.evaluation name (.missingArgument index))

def textArgument (name : String) (args : List Value) (index : Nat) : Except EvalError String := do
  let v ← argument name args index
  match v.text? with
  | some text => return text
  | none => .error (.mismatch name index .string v)

def doubleArgument (name : String) (args : List Value) (index : Nat) : Except EvalError Double := do
  let v ← argument name args index
  match v.double? with
  | some x => return x
  | none => .error (.mismatch name index .number v)

def longArgument (name : String) (args : List Value) (index : Nat) : Except EvalError Int64 := do
  let v ← argument name args index
  match v.whole? with
  | some n => return n
  | none => .error (.mismatch name index .long v)

theorem longArgument_of_some {name : String} {args : List Value} {index : Nat} {v : Value}
    {n : Int64} (hv : args[index]? = some v) (hn : v.whole? = some n) :
    longArgument name args index = .ok n := by
  simp only [longArgument, argument, hv, bind, Except.bind, hn]
  rfl

theorem longArgument_of_none {name : String} {args : List Value} {index : Nat} {v : Value}
    (hv : args[index]? = some v) (hn : v.whole? = none) :
    longArgument name args index = .error (.mismatch name index .long v) := by
  simp only [longArgument, argument, hv, bind, Except.bind, hn]

end Reckoner
