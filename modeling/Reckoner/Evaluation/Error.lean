import Reckoner.Formatter.Basic

namespace Reckoner

/-- What an argument should have been. -/
inductive Expected
  | kind (kind : Kind)
  | collectionOf (kind : Kind)
  | jsonValue
  deriving DecidableEq

def Expected.text : Expected → String
  | kind k => k.name
  | collectionOf k => "collection of " ++ k.name
  | jsonValue => "Number, String, Array or Object"

/-- What an argument is. -/
inductive Actual
  | kind (kind : Kind)
  | jsonNull
  | jsonBoolean (b : Bool)
  | jsonNumber (text : String)
  deriving DecidableEq

def Actual.text : Actual → String
  | kind k => k.name
  | jsonNull => "Null (null)"
  | jsonBoolean b => if b then "Boolean (true)" else "Boolean (false)"
  | jsonNumber text => "Number (" ++ text ++ ")"

/-- Why a function has no result for arguments of the right kinds. -/
inductive Failure
  /-- A reciprocal of zero, or of a sum that cancels out. -/
  | divisionByZero
  /-- A zero divisor of integers. -/
  | zeroDivisor
  | integerOverflow
  | longOverflow
  | notDecimal (leaf : String)
  | unknownMean (name : String)
  | noExpressionEvaluator
  | missingArgument (index : Nat)
  /-- A reason that a collaborator gives. -/
  | other (message : String)
  deriving DecidableEq

def unknownMeanMessage (name : String) : String :=
  s!"unknown mean variant '{name}', expected arithmetic, geometric, harmonic or median"

def Failure.message : Failure → String
  | divisionByZero => "division by zero"
  | zeroDivisor => "/ by zero"
  | integerOverflow => "integer overflow"
  | longOverflow => "long overflow"
  | notDecimal leaf => leaf ++ " cannot be represented as a decimal"
  | unknownMean name => unknownMeanMessage name
  | noExpressionEvaluator => "no expression evaluator attached"
  | missingArgument index => s!"argument {index} is missing"
  | other message => message

/-- Why a call failed. Arguments count from zero. -/
inductive EvalError
  | invalidArity (name : String) (min : Nat) (max : Option Nat) (actual : Nat)
  | invalidArgumentType (name : String) (index : Nat) (expected : Expected) (actual : Actual)
  | formatPattern (error : FormatError)
  | parse (name : String) (error : FormatError)
  | unknownFunction (name : String) (arity : Nat)
  | evaluation (name : String) (failure : Failure)
  deriving DecidableEq

namespace EvalError

/-- An argument of the wrong kind. -/
def mismatch (name : String) (index : Nat) (expected : Kind) (actual : Value) : EvalError :=
  invalidArgumentType name index (.kind expected) (.kind actual.kind)

def message : EvalError → String
  | invalidArity name min max actual =>
    let most := max.elim "\u221e" toString
    s!"Function '{name}' expects {min}-{most} arguments, got {actual}"
  | invalidArgumentType name index expected actual =>
    s!"Function '{name}' argument {index} expects {expected.text}, got {actual.text}"
  | formatPattern error => "Malformed number pattern: " ++ error.message
  | parse name error => s!"Function '{name}' cannot parse its input: {error.message}"
  | unknownFunction name arity => s!"Unknown function '{name}' with {arity} arguments"
  | evaluation name failure => s!"Function '{name}' evaluation error: {failure.message}"

def position? : EvalError → Option Nat
  | formatPattern error | parse _ error => error.position?
  | _ => none

end EvalError

end Reckoner
