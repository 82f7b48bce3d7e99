import Reckoner.Evaluation.Error

namespace Reckoner

/-- What a registry or an evaluator records about its work. -/
inductive LogRecord
  | builtRegistry (group : String) (count : Nat)
  | expressionShadows (name : String)
  | expressionTaken (name : String)
  | dispatchBuiltin (name : String) (label : String)
  | dispatchExpression (name : String)
  | dispatchOperation (name : String)
  | invokedOperation (name : String) (result : String)
  deriving DecidableEq

namespace LogRecord

def level : LogRecord → String
  | builtRegistry _ _ => "DEBUG"
  | expressionShadows _ | expressionTaken _ => "WARN"
  | _ => "TRACE"

def message : LogRecord → String
  | builtRegistry group count =>
    s!"Built function registry for group '{group}' with {count} functions"
  | expressionShadows name =>
    s!"Expression function name '{name}' shadows a math operation of the same name"
  | expressionTaken name =>
    s!"Expression function name '{name}' is taken by a built-in " ++
      "and will not reach the expression evaluator"
  | dispatchBuiltin name label => s!"Dispatching '{name}' to built-in {label}"
  | dispatchExpression name => s!"Dispatching '{name}' to the expression evaluator"
  | dispatchOperation name => s!"Dispatching '{name}' to math operations"
  | invokedOperation name result => s!"Invoked math operation '{name}' -> {result}"

end LogRecord

/-- The result of a call and what was recorded on the way. -/
structure Outcome where
  log : List LogRecord
  result : Except EvalError Value

/-- The collaborator for names that nothing else claims. -/
structure Operations where
  names : List String
  invoke : String → List Value → Outcome

end Reckoner
