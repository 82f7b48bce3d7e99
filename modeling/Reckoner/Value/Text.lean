import Reckoner.Text.Quoted
import Reckoner.Value.Basic

namespace Reckoner

namespace Value

mutual

/-- The text of a value for a reader: strings bare, the digits of a decimal as they are. -/
def text : Value → String
  | byte n => toString n
  | short n => toString n
  | integer n => toString n
  | long n => toString n
  | float x => x.plain
  | double x => x.plain
  | decimal d => d.plain
  | string s => s
  | collection items => "[" ++ ", ".intercalate (textItems items) ++ "]"
  | map ⟨names, _, thing⟩ =>
    let entries := names.attach.map fun ⟨name, h⟩ => name ++ ": " ++ (thing name h).text
    "\x7b" ++ ", ".intercalate entries ++ "\x7d"

def textItems : List Value → List String
  | [] => []
  | item :: rest => item.text :: textItems rest

end

mutual

/-- The text of a value with the kind of each part; a map shows its entries only. -/
def describe : Value → String
  | collection items => "Collection([" ++ ", ".intercalate (describeItems items) ++ "])"
  | map ⟨names, _, thing⟩ =>
    let entries := names.attach.map fun ⟨name, h⟩ =>
      Text.quoted name ++ ": " ++ (thing name h).describe
    "\x7b" ++ ", ".intercalate entries ++ "\x7d"
  | string s => "String(" ++ Text.quoted s ++ ")"
  | v => v.kind.name ++ "(" ++ v.text ++ ")"

def describeItems : List Value → List String
  | [] => []
  | item :: rest => item.describe :: describeItems rest

end

end Value

end Reckoner
