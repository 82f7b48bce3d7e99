import Reckoner.Value.Basic

namespace Reckoner

namespace Value

/-- Numbers are ordered across kinds: integers among themselves as integers, finite numbers by their
decimals, the rest by the total order of doubles. Strings are ordered by code points. No other two
values are ordered. -/
def naturalOrder (a b : Value) : Option Ordering :=
  match a, b with
  | string s, string t => some (compare s t)
  | _, _ =>
    if a.isNumeric && b.isNumeric then
      match a.whole?, b.whole? with
      | some m, some n => some (compare m.toInt n.toInt)
      | _, _ =>
        match a.toExact?, b.toExact? with
        | some x, some y => some (x.compare y)
        | _, _ =>
          match a.double?, b.double? with
          | some x, some y => some (x.totalCompare y)
          | _, _ => none
    else none

mutual

/-- Sameness within a kind: floating point numbers by their numerical order, decimals by value, maps
by what each key has. -/
def same : Value → Value → Bool
  | byte m, byte n => m == n
  | short m, short n => m == n
  | integer m, integer n => m == n
  | long m, long n => m == n
  | float x, float y => x.compare? y == some .eq
  | double x, double y => x.compare? y == some .eq
  | decimal d, decimal e => d.toExact.compare e.toExact == .eq
  | string s, string t => s == t
  | collection items, collection others => sameItems items others
  | map ⟨names, _, thing⟩, map others =>
    names.length == others.names.length && names.attach.all fun ⟨name, h⟩ =>
      match others.lookup name with
      | some other => (thing name h).same other
      | none => false
  | _, _ => false

def sameItems : List Value → List Value → Bool
  | [], [] => true
  | item :: rest, other :: others => item.same other && sameItems rest others
  | _, _ => false

end

end Value

end Reckoner
