import Reckoner.Evaluation.Error
import Reckoner.Value.Narrowing

namespace Reckoner

/-- Narrows the first argument. -/
def narrowValue (name : String) (width : Width) (args : List Value) : Except EvalError Value :=
  match args[0]? with
  | none => .error (.invalidArity name 1 (some 1) 0)
  | some v =>
    match v.narrow? width with
    | some narrowed => .ok narrowed
    | none => .error (.mismatch name 0 .number v)

end Reckoner
