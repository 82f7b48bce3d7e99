import Reckoner.Evaluation.Conversion
import Reckoner.Evaluation.Formatting
import Reckoner.Evaluation.Mean
import Reckoner.Evaluation.Signature

namespace Reckoner

/-- The functions that every evaluator has. -/
inductive Builtin
  | sum
  | product
  | mean
  | byteValue
  | shortValue
  | integerValue
  | longValue
  | floatValue
  | doubleValue
  | numberFormat
  | currencyFormat
  | percentFormat
  | parseNumber
  deriving DecidableEq

namespace Builtin

def all : List Builtin :=
  [sum, product, mean, byteValue, shortValue, integerValue, longValue, floatValue, doubleValue,
   numberFormat, currencyFormat, percentFormat, parseNumber]

def name : Builtin → String
  | sum => "sum"
  | product => "product"
  | mean => "mean"
  | byteValue => "byteValue"
  | shortValue => "shortValue"
  | integerValue => "integerValue"
  | longValue => "longValue"
  | floatValue => "floatValue"
  | doubleValue => "doubleValue"
  | numberFormat => "numberFormat"
  | currencyFormat => "currencyFormat"
  | percentFormat => "percentFormat"
  | parseNumber => "parseNumber"

def ofName? (name : String) : Option Builtin :=
  all.find? fun builtin => builtin.name == name

/-- The name with a capital letter, as log records have it. -/
def label (b : Builtin) : String :=
  b.name.capitalize

/-- A conversion takes one number. -/
def conversion (b : Builtin) (returns : Kind) : Signature :=
  ⟨b.name, [.required "value" .number], returns, false⟩

def signature (b : Builtin) : Signature :=
  match b with
  | sum | product => ⟨b.name, [.required "values" .any], .decimal, true⟩
  | mean => ⟨b.name, [.required "values" .any, ⟨"variant", .string, true⟩], .any, false⟩
  | byteValue => b.conversion .byte
  | shortValue => b.conversion .short
  | integerValue => b.conversion .integer
  | longValue => b.conversion .long
  | floatValue => b.conversion .float
  | doubleValue => b.conversion .double
  | numberFormat =>
    ⟨b.name, [.required "pattern" .string, .required "value" .number], .string, false⟩
  | currencyFormat | percentFormat => b.conversion .string
  | parseNumber =>
    ⟨b.name, [.required "pattern" .string, .required "source" .string], .number, false⟩

/-- Runs a built-in on arguments that its signature accepts. -/
def run (b : Builtin) (rule : ProductRule) (locale : Locale) (args : List Value) :
    Except EvalError Value :=
  match b with
  | sum => Reckoner.sum b.name args
  | product => Reckoner.product b.name args rule
  | mean => Reckoner.mean b.name args
  | byteValue => narrowValue b.name .byte args
  | shortValue => narrowValue b.name .short args
  | integerValue => narrowValue b.name .integer args
  | longValue => narrowValue b.name .long args
  | floatValue => narrowValue b.name .float args
  | doubleValue => narrowValue b.name .double args
  | numberFormat => Reckoner.numberFormat b.name args locale
  | currencyFormat => Reckoner.currencyFormat b.name args locale
  | percentFormat => Reckoner.percentFormat b.name args locale
  | parseNumber => Reckoner.parseNumber b.name args locale

end Builtin

end Reckoner
