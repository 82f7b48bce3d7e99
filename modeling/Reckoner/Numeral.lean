import Reckoner.Digits

namespace Reckoner

/-- A number to be written: digits in their normal form. -/
structure Numeral extends Digits where
  normal : Digits.Normal figures integerLength
  deriving DecidableEq

namespace Numeral

def ofMagnitude (negative : Bool) (m : Magnitude) : Numeral where
  toDigits :=
    .ofParts negative ((Nat.toDigits 10 m.coefficient).map Digits.figure)
      (decimalLength m.coefficient + m.exponent)
  normal := by
    apply Digits.normal_ofParts
    intro n hn
    obtain ⟨c, hc, rfl⟩ := List.mem_map.mp hn
    exact Digits.figure_le_nine (Nat.isDigit_of_mem_toDigits (by decide) (by decide) hc)

def ofExact (x : Exact) : Numeral :=
  ofMagnitude x.isNegative x.magnitude

def ofPlain? (text : List Char) : Option Numeral :=
  (Digits.ofPlain? text).pmap Numeral.mk fun _ h => Digits.normal_ofPlain? h

def ofRank? (negative : Bool) (rank : Fin BinaryFormat.double.ranks) : Option Numeral :=
  (Digits.ofRank? negative rank).pmap Numeral.mk fun _ h => Digits.normal_ofRank? h

def shift (n : Numeral) (places : Int) : Numeral :=
  ⟨n.toDigits.shift places, Digits.normal_shift n.normal places⟩

def withIntegerLength (n : Numeral) (length : Int) : Numeral :=
  ⟨n.toDigits.withIntegerLength length, Digits.normal_withIntegerLength n.normal length⟩

def round (n : Numeral) (places : Nat) : Numeral :=
  ⟨n.toDigits.round places, Digits.normal_round n.normal places⟩

/-- The digits of a number, none for zero. -/
def digits (n : Nat) : List Char :=
  if n = 0 then [] else Nat.toDigits 10 n

/-- Zeros before digits, up to a length. -/
def padded (length : Nat) (text : List Char) : List Char :=
  List.replicate (length - text.length) '0' ++ text

def integerDigits (n : Numeral) : List Char :=
  n.toDigits.integerDigits.map Nat.digitChar

def fractionDigits (n : Numeral) : List Char :=
  n.toDigits.fractionDigits.map Nat.digitChar

/-- The value of a whole number of at most nineteen digits and some. -/
def whole? (n : Numeral) : Option Int :=
  let m := n.magnitude
  if 0 ≤ m.exponent ∧ m.exponent ≤ 19 then
    let magnitude : Int := m.coefficient * Nat.pow 10 m.exponent.toNat
    some (if n.negative then -magnitude else magnitude)
  else none

def toBinary {f : BinaryFormat} (n : Numeral) : Binary f :=
  Binary.ofDecimal n.negative n.magnitude.coefficient n.magnitude.exponent

end Numeral

end Reckoner
