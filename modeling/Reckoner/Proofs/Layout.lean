import Reckoner.Formatter.Writer
import Reckoner.Proofs.BuiltFormatter
import Reckoner.Proofs.PlainText

namespace Reckoner

namespace Formatter

/-- Digits with a separator before each from which a whole number of groups runs to the end, the
first digit apart. -/
def separated (separator : Char) (size : ℕ) (digits : List Char) : List Char :=
  digits.zipIdx.flatMap fun (c, i) =>
    if 0 < size ∧ 0 < i ∧ (digits.length - i) % size = 0 then [separator, c] else [c]

theorem grouped_eq_cons (separator : Char) (size total : ℕ) (c : Char) (rest : List Char) (k : ℕ)
    (hk : 0 < k) (htotal : total = k + rest.length) :
    grouped separator size (c :: rest) = c :: (rest.zipIdx k).flatMap fun (d, i) =>
      if 0 < size ∧ 0 < i ∧ (total - i) % size = 0 then [separator, d] else [d] := by
  induction rest generalizing c k with
  | nil => simp [grouped]
  | cons d ds ih =>
    have hlen : total - k = (d :: ds).length := by omega
    rw [grouped, ih d (k + 1) (by omega) (by rw [htotal, List.length_cons]; omega),
      List.zipIdx_cons, List.flatMap_cons]
    simp only [hlen, hk, ne_eq, reduceCtorEq, not_false_eq_true, true_and]
    split <;> simp

/-- Counting digits from the end of the rest and from the start of the whole comes to the same. -/
theorem grouped_eq_separated (separator : Char) (size : ℕ) (digits : List Char) :
    grouped separator size digits = separated separator size digits := by
  cases digits with
  | nil => rfl
  | cons c rest =>
    rw [grouped_eq_cons separator size (c :: rest).length c rest 1 Nat.one_pos
      (by rw [List.length_cons, Nat.add_comm]), separated, List.zipIdx_cons, List.flatMap_cons]
    simp

/-- The digits before the point as they are written: zeros fill up the least count, and a number
without any digit is a zero. -/
def wholeText (f : Formatter) (n : Numeral) : List Char :=
  let whole := Numeral.padded f.pattern.minInteger n.integerDigits
  if whole = [] ∧ filled f.pattern.minFraction n.fractionDigits = [] then ['0'] else whole

def fractionText (f : Formatter) (n : Numeral) : List Char :=
  filled f.pattern.minFraction n.fractionDigits

def pointText (f : Formatter) (fraction : List Char) : List Char :=
  if fraction ≠ [] ∨ f.pattern.alwaysPoint then [f.symbols.decimal] else []

theorem plainBody_eq (f : Formatter) (groupSize : ℕ) (n : Numeral) :
    f.plainBody groupSize n = grouped f.symbols.grouping groupSize (f.wholeText n) ++
      f.pointText (f.fractionText n) ++ f.fractionText n :=
  rfl

variable {f : Formatter} {n : Numeral}

theorem isDigit_of_mem_wholeText {c : Char} (h : c ∈ f.wholeText n) : c.isDigit := by
  unfold wholeText at h
  dsimp only at h
  split at h
  · rw [List.mem_singleton.mp h]
    decide
  · exact Numeral.isDigit_of_mem_padded (fun _ hc => Numeral.isDigit_of_mem_integerDigits hc) h

theorem isDigit_of_mem_fractionText {c : Char} (h : c ∈ f.fractionText n) : c.isDigit := by
  rcases List.mem_append.mp h with hc | hz
  · exact Numeral.isDigit_of_mem_fractionDigits hc
  · rw [List.eq_of_mem_replicate hz]
    decide

theorem wholeText_value : Nat.ofDigitChars 10 (f.wholeText n) 0 =
    Nat.ofDigitChars 10 n.integerDigits 0 := by
  have hpad := Numeral.padded_value f.pattern.minInteger n.integerDigits
  unfold wholeText
  dsimp only
  split
  · rename_i h
    rw [h.1] at hpad
    exact hpad
  · exact hpad

/-- All written digits together are the magnitude without its point. -/
theorem text_value : (Nat.ofDigitChars 10 (f.wholeText n ++ f.fractionText n) 0 : ℚ) =
    |n.value| * 10 ^ (f.fractionText n).length := by
  have hall := n.allDigits_value
  rw [Nat.ofDigitChars_append] at hall
  rw [fractionText, filled, ← List.append_assoc, Nat.ofDigitChars_append,
    Nat.ofDigitChars_replicate_zero, Nat.ofDigitChars_append, wholeText_value, Nat.cast_mul, hall,
    List.length_append, List.length_replicate, pow_add]
  push_cast
  ring

variable (f n)

/-- What the digits around the point of a magnitude are. No count is more than the pattern asks for
unless the magnitude needs it. -/
structure LaidOut (q : ℚ) (whole fraction : List Char) : Prop where
  isDigit : ∀ c ∈ whole ++ fraction, c.isDigit
  shown : whole ++ fraction ≠ []
  number : (Nat.ofDigitChars 10 (whole ++ fraction) 0 : ℚ) = q * 10 ^ fraction.length
  wholeNumber : Nat.ofDigitChars 10 whole 0 = ⌊q⌋₊
  minWhole : f.pattern.minInteger ≤ whole.length
  wholeTrimmed : f.pattern.minInteger < whole.length →
    whole.head? ≠ some '0' ∨ whole = ['0'] ∧ fraction = []
  minFraction : f.pattern.minFraction ≤ fraction.length
  maxFraction : fraction.length ≤ f.pattern.maxFraction
  fractionTrimmed : f.pattern.minFraction < fraction.length → fraction.getLast? ≠ some '0'

theorem length_fractionText :
    (f.fractionText n).length = max f.pattern.minFraction n.fractionDigits.length := by
  rw [fractionText, filled, List.length_append, List.length_replicate]
  omega

variable {f n}

theorem wholeText_trimmed (h : f.pattern.minInteger < (f.wholeText n).length) :
    (f.wholeText n).head? ≠ some '0' ∨ f.wholeText n = ['0'] ∧ f.fractionText n = [] := by
  unfold wholeText at h ⊢
  dsimp only at h ⊢
  split
  · rename_i hempty
    exact Or.inr ⟨rfl, hempty.2⟩
  · rename_i hempty
    left
    rw [if_neg hempty, Numeral.length_padded] at h
    rw [Numeral.padded, show f.pattern.minInteger - n.integerDigits.length = 0 by omega]
    exact n.head?_integerDigits

theorem minInteger_le_wholeText : f.pattern.minInteger ≤ (f.wholeText n).length := by
  have hpad := Numeral.length_padded f.pattern.minInteger n.integerDigits
  unfold wholeText
  dsimp only
  split
  · rename_i h
    rw [h.1, List.length_nil] at hpad
    omega
  · omega

theorem texts_ne_nil : f.wholeText n ++ f.fractionText n ≠ [] := by
  unfold wholeText
  dsimp only
  split
  · simp
  · rename_i h
    rwa [ne_eq, List.append_eq_nil_iff]

theorem fractionText_trimmed (h : f.pattern.minFraction < (f.fractionText n).length) :
    (f.fractionText n).getLast? ≠ some '0' := by
  rw [length_fractionText] at h
  rw [fractionText, filled, show f.pattern.minFraction - n.fractionDigits.length = 0 by omega]
  simpa using n.getLast?_fractionDigits

theorem laidOut (hfraction : f.pattern.minFraction ≤ f.pattern.maxFraction)
    (hplaces : n.fractionDigits.length ≤ f.pattern.maxFraction) :
    f.LaidOut |n.value| (f.wholeText n) (f.fractionText n) where
  isDigit c hc := by
    rcases List.mem_append.mp hc with h | h
    · exact isDigit_of_mem_wholeText h
    · exact isDigit_of_mem_fractionText h
  shown := texts_ne_nil
  number := text_value
  wholeNumber := by rw [wholeText_value, Numeral.integerDigits_eq, Numeral.digits_value]
  minWhole := minInteger_le_wholeText
  wholeTrimmed := wholeText_trimmed
  minFraction := by rw [length_fractionText]; exact le_max_left _ _
  maxFraction := by rw [length_fractionText]; exact max_le hfraction hplaces
  fractionTrimmed := fractionText_trimmed

theorem writePlain?_exact (x : Exact) :
    f.writePlain? x.plain =
      some (f.writeNumeral ((Numeral.ofExact x).shift f.pattern.multiplier)) := by
  rw [writePlain?, Numeral.ofPlain?_exact, Option.map_some]

theorem writePlain?_whole (k : Int64) :
    f.writePlain? (toString k) =
      some (f.writeNumeral ((Numeral.ofExact (.ofInt k.toInt)).shift f.pattern.multiplier)) := by
  change f.writePlain? (toString k.toInt) = _
  rw [Numeral.toString_eq_plain, writePlain?_exact]

/-- A value that holds a number exactly is scaled exactly. -/
theorem write?_of_number? {v : Value} {x : ℚ} (hv : v.number? = some x) :
    ∃ n : Numeral, n.IsExact ∧ n.value = x * 10 ^ f.pattern.multiplier ∧
      f.write? v = some (f.writeNumeral n) := by
  obtain ⟨e, he, rfl⟩ := Value.toExact?_of_number? hv
  refine ⟨(Numeral.ofExact e).shift f.pattern.multiplier,
    Numeral.shift_isExact (Numeral.ofMagnitude_isExact _ _) _, by simp, ?_⟩
  cases v <;> simp only [Value.number?, reduceCtorEq] at hv <;> obtain rfl := Option.some.inj he
  case decimal d => exact writePlain?_exact _
  all_goals exact writePlain?_whole _

theorem writeNumeral_plain (hplain : f.pattern.exponentDigits = none) (n : Numeral) :
    f.writeNumeral n =
      let rounded := n.round f.pattern.maxFraction
      f.withAffixes (decide (rounded.value < 0)) (f.plainBody f.pattern.groupSize rounded) := by
  simp only [writeNumeral, body, hplain]
  rw [← Numeral.negative_iff, Numeral.negative_round]

/-- A text is a number with its digits laid out around the point, between the affixes of its sign. -/
def Writes (f : Formatter) (q : ℚ) (text : String) : Prop :=
  ∃ whole fraction, f.LaidOut |q| whole fraction ∧ text = String.ofList
    ((f.affixes (decide (q < 0))).1 ++ (separated f.symbols.grouping f.pattern.groupSize whole ++
      f.pointText fraction ++ fraction) ++ (f.affixes (decide (q < 0))).2)

theorem exists_writes (hf : f.Built) (hplain : f.pattern.exponentDigits = none) {v : Value} {x : ℚ}
    (hv : v.number? = some x) :
    ∃ text, f.write? v = some text ∧
      f.Writes (roundedTo (-f.pattern.maxFraction) (x * 10 ^ f.pattern.multiplier)) text := by
  obtain ⟨n, hn, hvalue, hwrite⟩ := write?_of_number? (f := f) hv
  have hlaid := laidOut (f := f) hf.fraction (n.length_fractionDigits_round _)
  rw [Numeral.value_round hn.source, hvalue] at hlaid
  refine ⟨_, hwrite, _, _, hlaid, ?_⟩
  rw [writeNumeral_plain hplain, ← grouped_eq_separated, ← plainBody_eq]
  simp only [Numeral.value_round hn.source, hvalue, withAffixes]

end Formatter

end Reckoner
