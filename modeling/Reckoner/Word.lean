namespace Reckoner

/-- A whole number as an integer of 32 bits with a sign, if it is one. -/
def int32? (n : Int) : Option Int32 :=
  if Int32.minValue.toInt ≤ n ∧ n ≤ Int32.maxValue.toInt then some (Int32.ofInt n) else none

/-- A whole number as an integer of 64 bits with a sign, if it is one. -/
def int64? (n : Int) : Option Int64 :=
  if Int64.minValue.toInt ≤ n ∧ n ≤ Int64.maxValue.toInt then some (Int64.ofInt n) else none

theorem int32?_eq_some_iff {n : Int} {word : Int32} : int32? n = some word ↔ word.toInt = n := by
  unfold int32?
  constructor
  · intro h
    split at h
    · rename_i range
      cases h
      exact Int32.toInt_ofInt_of_le range.1 (Int.lt_of_le_of_lt range.2 (by decide))
    · cases h
  · intro h
    subst h
    rw [if_pos ⟨Int32.minValue_le_toInt word, Int32.toInt_le word⟩, Int32.ofInt_toInt]

theorem int64?_eq_some_iff {n : Int} {word : Int64} : int64? n = some word ↔ word.toInt = n := by
  unfold int64?
  constructor
  · intro h
    split at h
    · rename_i range
      cases h
      exact Int64.toInt_ofInt_of_le range.1 (Int.lt_of_le_of_lt range.2 (by decide))
    · cases h
  · intro h
    subst h
    rw [if_pos ⟨Int64.minValue_le_toInt word, Int64.toInt_le word⟩, Int64.ofInt_toInt]

end Reckoner
