import Reckoner.Evaluation.Arguments
import Reckoner.Formatter.Reader
import Reckoner.Formatter.Writer

namespace Reckoner

def formatterOf (f : Except FormatError Formatter) : Except EvalError Formatter :=
  f.mapError .formatPattern

/-- Writes the second argument by the pattern that is the first. -/
def numberFormat (name : String) (args : List Value) (locale : Locale) :
    Except EvalError Value := do
  let pattern ← textArgument name args 0
  let formatter ← formatterOf (Formatter.ofPattern pattern locale)
  let v ← argument name args 1
  match formatter.write? v with
  | some text => return .string text
  | none => .error (.mismatch name 1 .number v)

def currencyFormat (name : String) (args : List Value) (locale : Locale) :
    Except EvalError Value := do
  let x ← doubleArgument name args 0
  let formatter ← formatterOf (Formatter.currency locale)
  return .string (formatter.writeDouble x)

def percentFormat (name : String) (args : List Value) (locale : Locale) :
    Except EvalError Value := do
  let x ← doubleArgument name args 0
  let formatter ← formatterOf (Formatter.percent locale)
  return .string (formatter.writeDouble x)

/-- Reads the second argument by the pattern that is the first. -/
def parseNumber (name : String) (args : List Value) (locale : Locale) :
    Except EvalError Value := do
  let pattern ← textArgument name args 0
  let source ← textArgument name args 1
  let formatter ← formatterOf (Formatter.ofPattern pattern locale)
  (formatter.read source).mapError (.parse name)

end Reckoner
