import Reckoner.Evaluation.Error
import Reckoner.Json.Basic

namespace Reckoner

/-- A JSON value that no value stands for. -/
def EvalError.notConvertible (actual : Actual) : EvalError :=
  invalidArgumentType "json" 0 .jsonValue actual

namespace Value

mutual

/-- The value of a JSON value; `null` and booleans have none, and the first one in reading order is
the error. -/
def ofJson : Json → Except EvalError Value
  | .null => .error (.notConvertible .jsonNull)
  | .boolean b => .error (.notConvertible (.jsonBoolean b))
  | .number n =>
    match n.long?, n.double? with
    | some whole, _ => .ok (.long whole)
    | none, some x => .ok (.double x)
    | none, none => .error (.notConvertible (.jsonNumber n.text))
  | .string text => .ok (.string text)
  | .array items => do return .collection (← ofJsonItems items)
  | .object ⟨names, _, thing⟩ => do
    return .map (← Named.collect names fun name h => ofJson (thing name h))

def ofJsonItems : List Json → Except EvalError (List Value)
  | [] => .ok []
  | item :: rest => do
    let v ← ofJson item
    return v :: (← ofJsonItems rest)

end

/-- A floating point number, or `null` if it is not finite. -/
def jsonOfBinary (x : Double) : Json :=
  if finite : x.isFinite then .number (.double x finite) else .null

mutual

/-- Integers become longs, decimals strings. -/
def toJson : Value → Json
  | byte n => .number (.ofLong n.toInt64)
  | short n => .number (.ofLong n.toInt64)
  | integer n => .number (.ofLong n.toInt64)
  | long n => .number (.ofLong n)
  | float x => jsonOfBinary x.convert
  | double x => jsonOfBinary x
  | decimal d => .string d.plain
  | string text => .string text
  | collection items => .array (toJsonItems items)
  | map ⟨names, distinct, thing⟩ => .object ⟨names, distinct, fun name h => (thing name h).toJson⟩

def toJsonItems : List Value → List Json
  | [] => []
  | item :: rest => item.toJson :: toJsonItems rest

end

end Value

end Reckoner
