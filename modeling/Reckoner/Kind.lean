namespace Reckoner

/-- What a value is, or what a parameter asks for: `number` and `any` are asked for only. -/
inductive Kind
  | byte
  | short
  | integer
  | long
  | float
  | double
  | decimal
  | string
  | collection
  | map
  | number
  | any
  deriving DecidableEq

namespace Kind

def all : List Kind :=
  [byte, short, integer, long, float, double, decimal, string, collection, map, number, any]

def name : Kind → String
  | byte => "Byte"
  | short => "Short"
  | integer => "Integer"
  | long => "Long"
  | float => "Float"
  | double => "Double"
  | decimal => "Decimal"
  | string => "String"
  | collection => "Collection"
  | map => "Map"
  | number => "Number"
  | any => "Any"

def ofName? (name : String) : Option Kind :=
  all.find? fun kind => kind.name == name

def isNumeric : Kind → Bool
  | string | collection | map | any => false
  | _ => true

def isIntegral : Kind → Bool
  | byte | short | integer | long => true
  | _ => false

/-- Whether a value of kind `actual` may stand where `declared` is asked for. -/
def accepts (declared actual : Kind) : Bool :=
  if declared = any ∨ actual = any then true
  else if declared = number then actual.isNumeric
  else if actual = number then declared.isNumeric
  else declared == actual

end Kind

end Reckoner
