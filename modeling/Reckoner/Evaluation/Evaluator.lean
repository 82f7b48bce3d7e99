import Reckoner.Evaluation.Config
import Reckoner.Evaluation.Operation
import Reckoner.Evaluation.Registry

namespace Reckoner

/-- Evaluates calls by name for one group of functions. -/
structure Evaluator where
  config : Config
  operations : Operations
  expression : Option (List Value → Except EvalError Value)

namespace Evaluator

/-- The names that are claimed, and what was recorded while they were collected. -/
def build (e : Evaluator) : Registry × List LogRecord :=
  Registry.build e.config.group e.operations.names e.config.expression

def registry (e : Evaluator) : Registry :=
  e.build.1

/-- Calls the expression evaluator, if there is one. -/
def evaluateExpression (e : Evaluator) (name : String) (args : List Value) :
    Except EvalError Value :=
  match e.expression with
  | some evaluate => evaluate args
  | none => .error (.evaluation name .noExpressionEvaluator)

/-- Checks the arguments of a built-in before it runs. -/
def evaluateBuiltin (e : Evaluator) (b : Builtin) (args : List Value) (locale : Locale) :
    Except EvalError Value := do
  b.signature.check args
  b.run e.config.product locale args

/-- Evaluates a call. A name that is not claimed goes to the operations. -/
def evaluate (e : Evaluator) (name : String) (args : List Value) (locale : Locale) : Outcome :=
  if name = "" then ⟨[], .error (.unknownFunction name args.length)⟩
  else
    match e.registry.resolve name with
    | some (.builtin b) =>
      ⟨[.dispatchBuiltin name b.label], e.evaluateBuiltin b args locale⟩
    | some .expression => ⟨[.dispatchExpression name], e.evaluateExpression name args⟩
    | some .operation | none =>
      let outcome := e.operations.invoke name args
      { outcome with log := .dispatchOperation name :: outcome.log }

/-- The text of an evaluator with the names of its parts. -/
def describe (e : Evaluator) : String :=
  "MathFunctionEvaluator \x7b group_name: " ++ Text.quoted e.registry.group ++
    ", functions: " ++ toString e.registry.size ++
    ", config: " ++ e.config.describe ++
    ", expression_evaluator: " ++ toString e.expression.isSome ++ " \x7d"

end Evaluator

end Reckoner
