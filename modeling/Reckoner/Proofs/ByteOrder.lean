import Mathlib.Data.String.Basic
import Mathlib.Data.UInt

namespace Reckoner

namespace Text

/-- The bytes in which a text is stored. -/
def bytes (text : String) : List UInt8 :=
  text.toByteArray.data.toList

theorem bytes_eq (text : String) : bytes text = text.toList.flatMap String.utf8EncodeChar := by
  rw [bytes, ← String.utf8Encode_toList, List.utf8Encode, List.data_toByteArray]

/-- The trailing bytes of a character: the last digits of its number in base 64. -/
def trailing (code : ℕ) : ℕ → List UInt8
  | 0 => []
  | count + 1 => UInt8.ofNat (code / 64 ^ count % 64 + 128) :: trailing code count

/-- How many trailing bytes a character has. -/
def trailingCount (code : ℕ) : ℕ :=
  if code ≤ 127 then 0 else if code ≤ 2047 then 1 else if code ≤ 65535 then 2 else 3

/-- What tells in a leading byte how many bytes follow. -/
def leadBase : ℕ → ℕ
  | 0 => 0
  | 1 => 192
  | 2 => 224
  | _ => 240

variable {m n count : ℕ} {c d : Char}

theorem toNat_lt (c : Char) : c.toNat < 0x110000 := by
  rcases c.valid with h | h
  · exact Nat.lt_trans h (by decide)
  · exact h.2

theorem utf8EncodeChar_eq (c : Char) :
    String.utf8EncodeChar c =
      UInt8.ofNat (c.toNat / 64 ^ trailingCount c.toNat + leadBase (trailingCount c.toNat)) ::
        trailing c.toNat (trailingCount c.toNat) := by
  have hcode := toNat_lt c
  simp only [String.utf8EncodeChar, Char.toNat] at hcode ⊢
  generalize c.val.toNat = code at hcode ⊢
  unfold trailingCount
  split_ifs
  · simp [trailing, leadBase]
  · rw [Nat.mod_eq_of_lt (show code / 64 < 32 by omega)]
    simp [trailing, leadBase]
  · rw [Nat.mod_eq_of_lt (show code / 4096 < 16 by omega)]
    simp [trailing, leadBase]
  · rw [Nat.mod_eq_of_lt (show code / 262144 < 8 by omega)]
    simp [trailing, leadBase]

/-- Numbers in order have their leading digits in order, or have the same and go on in order. -/
theorem div_lt_or_mod_lt (h : m < n) (base : ℕ) :
    m / base < n / base ∨ m / base = n / base ∧ m % base < n % base := by
  rcases (Nat.div_le_div_right h.le : m / base ≤ n / base).lt_or_eq with hlt | heq
  · exact Or.inl hlt
  · right
    have hm := Nat.div_add_mod m base
    have hn := Nat.div_add_mod n base
    rw [heq] at hm
    exact ⟨heq, by omega⟩

/-- Bytes are in the order of the numbers below 256 that they are. -/
theorem cons_ofNat_lt {s t : List UInt8} (hn : n < 256) (h : m < n ∨ m = n ∧ s < t) :
    UInt8.ofNat m :: s < UInt8.ofNat n :: t := by
  rw [List.cons_lt_cons_iff]
  rcases h with hlt | ⟨rfl, hlt⟩
  · left
    rw [UInt8.lt_iff_toNat_lt, UInt8.toNat_ofNat_of_lt' (hlt.trans hn),
      UInt8.toNat_ofNat_of_lt' hn]
    exact hlt
  · exact Or.inr ⟨rfl, hlt⟩

theorem trailing_lt (h : m % 64 ^ count < n % 64 ^ count) (s t : List UInt8) :
    trailing m count ++ s < trailing n count ++ t := by
  induction count with
  | zero => simp [Nat.mod_one] at h
  | succ count ih =>
    have hdigits := div_lt_or_mod_lt h (64 ^ count)
    rw [pow_succ, Nat.mod_mul_right_div_self, Nat.mod_mul_right_div_self,
      Nat.mod_mul_right_mod, Nat.mod_mul_right_mod] at hdigits
    apply cons_ofNat_lt
    · have := Nat.mod_lt (n / 64 ^ count) (show 0 < 64 by decide)
      omega
    · rcases hdigits with hlt | ⟨heq, hlt⟩
      · exact Or.inl (by omega)
      · exact Or.inr ⟨by rw [heq], ih hlt⟩

/-- The leading byte is the greater for a character of more bytes, and else the digits decide. -/
theorem utf8EncodeChar_lt (h : c < d) (s t : List UInt8) :
    String.utf8EncodeChar c ++ s < String.utf8EncodeChar d ++ t := by
  have hcode : c.toNat < d.toNat := h
  have hlast := toNat_lt d
  rw [utf8EncodeChar_eq, utf8EncodeChar_eq]
  generalize c.toNat = m at hcode ⊢
  generalize d.toNat = n at hcode hlast ⊢
  apply cons_ofNat_lt
  · unfold trailingCount
    split_ifs <;> simp only [leadBase] <;> omega
  · by_cases hcount : trailingCount m = trailingCount n
    · rw [hcount]
      rcases div_lt_or_mod_lt hcode (64 ^ trailingCount n) with hlt | ⟨heq, hlt⟩
      · exact Or.inl (by omega)
      · exact Or.inr ⟨by rw [heq], trailing_lt hlt s t⟩
    · left
      unfold trailingCount at hcount ⊢
      split_ifs at hcount ⊢ <;> simp only [leadBase] <;> omega

theorem flatMap_utf8EncodeChar_lt {k l : List Char} (h : k < l) :
    k.flatMap String.utf8EncodeChar < l.flatMap String.utf8EncodeChar := by
  induction h with
  | nil =>
    rw [List.flatMap_cons, utf8EncodeChar_eq]
    exact List.Lex.nil
  | rel h =>
    rw [List.flatMap_cons, List.flatMap_cons]
    exact utf8EncodeChar_lt h _ _
  | cons _ ih =>
    rw [List.flatMap_cons, List.flatMap_cons]
    exact List.append_left_lt ih

/-- Texts are in the order of their bytes. -/
theorem bytes_lt {a b : String} (h : a < b) : bytes a < bytes b := by
  rw [bytes_eq, bytes_eq]
  exact flatMap_utf8EncodeChar_lt (String.lt_iff_toList_lt.mp h)

end Text

end Reckoner
