import Reckoner.Text.Character

namespace Reckoner

namespace Text

/-- A character inside quotes. What cannot be seen alone is given by its number. -/
def escapeVisible (c : Char) : List Char :=
  if c = '\x00' then ['\\', '0']
  else if c = '\t' then ['\\', 't']
  else if c = '\r' then ['\\', 'r']
  else if c = '\n' then ['\\', 'n']
  else if c = '\x22' ∨ c = '\\' then ['\\', c]
  else if isPrintable c && !isExtending c then [c]
  else '\\' :: 'u' :: '\x7b' :: Nat.toDigits 16 c.toNat ++ ['\x7d']

/-- A text in quotes that shows each of its characters. -/
def quoted (s : String) : String :=
  String.ofList ('\x22' :: s.toList.flatMap escapeVisible ++ ['\x22'])

end Text

end Reckoner
