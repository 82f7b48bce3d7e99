import Reckoner.Evaluation.Accumulator
import Reckoner.Json.Reader
import Reckoner.Locale
import Reckoner.Text.Quoted

namespace Reckoner

namespace ProductRule

def label : ProductRule → String
  | multiply => "Multiply"
  | legacyAdditive => "LegacyAdditive"

def tag : ProductRule → String
  | multiply => "multiply"
  | legacyAdditive => "legacy_additive"

def ofTag? (tag : String) : Option ProductRule :=
  [multiply, legacyAdditive].find? fun rule => rule.tag == tag

end ProductRule

/-- What an evaluator is built from. -/
structure Config where
  group : String := "math"
  /-- The name that goes to the expression evaluator. -/
  expression : String := "evalExpression"
  /-- The locale of calls that bring none. -/
  locale : Locale := .enUS
  product : ProductRule := .multiply
  deriving DecidableEq

namespace Config

def standard : Config := {}

def legacy : Config :=
  { product := .legacyAdditive }

def withLocale (c : Config) (locale : Locale) : Config :=
  { c with locale }

/-- The field of a name, all of which are strings. -/
def withField? (c : Config) (name text : String) : Option Config :=
  match name with
  | "group_name" => some { c with group := text }
  | "eval_expression_name" => some { c with expression := text }
  | "default_locale" => (Locale.ofTag? text).map c.withLocale
  | "product_semantics" => (ProductRule.ofTag? text).map fun product => { c with product }
  | _ => none

def fieldNames : List String :=
  ["group_name", "eval_expression_name", "default_locale", "product_semantics"]

/-- The text that stands for a field. The product rule may also be the only key of an object, which
has `null` for it. -/
def fieldText? (name : String) : JsonTree → Option String
  | .string units => JsonUnit.string? units
  | .object [(key, .null)] => if name = "product_semantics" then JsonUnit.string? key else none
  | _ => none

def withItem? (c : Config) (name : String) (item : JsonTree) : Option Config := do
  c.withField? name (← fieldText? name item)

/-- Takes fields without their names, as many as there are, in the order of the names. -/
def withItems? (c : Config) : List String → List JsonTree → Option Config
  | _, [] => some c
  | [], _ :: _ => none
  | name :: names, item :: rest => do (← c.withItem? name item).withItems? names rest

/-- Takes the fields in order, each at most once. What has another name is not looked at. -/
def withMembers? (c : Config) (seen : List String) :
    List (List JsonUnit × JsonTree) → Option Config
  | [] => some c
  | (key, item) :: rest => do
    let name ← JsonUnit.string? key
    if name ∈ fieldNames then
      if name ∈ seen then none
      else (← c.withItem? name item).withMembers? (name :: seen) rest
    else c.withMembers? seen rest

/-- Reads a configuration from a JSON text, which is an object, or an array of the first fields. What
it lacks keeps its standard. -/
def read? (text : String) : Option Config := do
  match ← JsonTree.read? text with
  | .object members => standard.withMembers? [] members
  | .array items => standard.withItems? fieldNames items
  | _ => none

def toJson (c : Config) : Json :=
  .object (.ofList
    [("group_name", .string c.group),
     ("eval_expression_name", .string c.expression),
     ("default_locale", .string c.locale.tag),
     ("product_semantics", .string c.product.tag)])

/-- The text of a configuration with the names of its parts. -/
def describe (c : Config) : String :=
  let region := c.locale.region.elim "None" fun region => "Some(" ++ Text.quoted region ++ ")"
  "MathFunctionConfig \x7b group_name: " ++ Text.quoted c.group ++
    ", eval_expression_name: " ++ Text.quoted c.expression ++
    ", default_locale: Locale \x7b language: " ++ Text.quoted c.locale.language ++
    ", region: " ++ region ++ " \x7d, product_semantics: " ++ c.product.label ++ " \x7d"

end Config

end Reckoner
