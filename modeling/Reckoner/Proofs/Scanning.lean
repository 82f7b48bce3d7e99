import Reckoner.Formatter.Reader
import Reckoner.Proofs.Layout

namespace Reckoner

/-- A text at which a number ends. -/
def Symbols.Stops (s : Symbols) (rest : List Char) : Prop :=
  ∀ c ∈ rest.head?, ¬s.IsNumberSign c

instance (s : Symbols) (rest : List Char) : Decidable (s.Stops rest) :=
  Option.decidableForallMem (p := fun c => ¬s.IsNumberSign c) rest.head?

theorem Symbols.IsApart.stops {s : Symbols} {text : String} (h : s.IsApart text)
    (rest : List Char) : s.Stops (text.toList ++ rest) := by
  obtain ⟨c, tail, htext⟩ := List.exists_cons_of_ne_nil h.1
  rw [htext]
  rintro d ⟨⟩
  exact h.2 c (by rw [htext]; exact List.mem_cons_self)

theorem ReadDigits.foldl_push (d : ReadDigits) (digits : List Char) :
    digits.foldl push d = ⟨Nat.ofDigitChars 10 digits d.coefficient, d.count + digits.length,
      d.fraction.map (· + digits.length)⟩ := by
  induction digits generalizing d with
  | nil =>
    rcases d with ⟨coefficient, count, fraction⟩
    cases fraction <;> simp [Nat.ofDigitChars_nil]
  | cons c rest ih =>
    rw [List.foldl_cons, ih, Nat.ofDigitChars_cons]
    rcases d with ⟨coefficient, count, fraction⟩
    cases fraction <;> simp [push] <;> omega

namespace Formatter

variable {f : Formatter} {n : Numeral}

theorem readDigits_digits (d : ReadDigits) {digits : List Char} (h : ∀ c ∈ digits, c.isDigit)
    (rest : List Char) :
    f.readDigits d (digits ++ rest) = f.readDigits (digits.foldl ReadDigits.push d) rest := by
  induction digits generalizing d with
  | nil => rfl
  | cons c digits ih =>
    rw [List.cons_append, readDigits, if_pos (h c List.mem_cons_self), List.foldl_cons]
    exact ih (d.push c) (fun x hx => h x (List.mem_cons_of_mem _ hx))

/-- Separators between digits are read over. -/
theorem readDigits_grouped (hs : f.symbols.Regular) {size : ℕ}
    (hsize : size = 0 ∨ size = f.pattern.groupSize) {d : ReadDigits} (hd : d.fraction = none)
    {digits : List Char} (h : ∀ c ∈ digits, c.isDigit) (rest : List Char) :
    f.readDigits d (grouped f.symbols.grouping size digits ++ rest) =
      f.readDigits (digits.foldl ReadDigits.push d) rest := by
  induction digits generalizing d with
  | nil => rfl
  | cons c digits ih =>
    have hc := h c List.mem_cons_self
    have hpush : (d.push c).fraction = none := by simp [ReadDigits.push, hd]
    have hrest := ih hpush (fun x hx => h x (List.mem_cons_of_mem _ hx))
    rw [grouped, List.foldl_cons, ← hrest]
    split
    · rename_i hgroup
      have hpos : 0 < f.pattern.groupSize := by omega
      rw [List.cons_append, readDigits, if_pos hc, List.cons_append, readDigits, hs.grouping,
        if_neg Bool.false_ne_true, if_neg (fun hdec => hs.separators hdec.1.symm),
        if_pos ⟨rfl, hpos, hpush⟩]
    · rw [List.cons_append, readDigits, if_pos hc]

theorem readDigits_point (hs : f.symbols.Regular) {d : ReadDigits} (hd : d.fraction = none)
    (rest : List Char) :
    f.readDigits d (f.symbols.decimal :: rest) =
      f.readDigits { d with fraction := some 0 } rest := by
  rw [readDigits, hs.decimal, if_neg Bool.false_ne_true, if_pos ⟨rfl, hd⟩]

theorem readDigits_stop {rest : List Char} (h : f.symbols.Stops rest) (d : ReadDigits) :
    f.readDigits d rest = (d, rest) := by
  cases rest with
  | nil => rfl
  | cons c rest =>
    have hc := h c rfl
    simp only [Symbols.IsNumberSign, not_or] at hc
    rw [readDigits, if_neg hc.1, if_neg (fun hdec => hc.2.1 hdec.1),
      if_neg (fun hgroup => hc.2.2 hgroup.1)]

/-- What is read from a plain body is the magnitude that was written. -/
theorem readDigits_plainBody (hs : f.symbols.Regular) {size : ℕ}
    (hsize : size = 0 ∨ size = f.pattern.groupSize) {rest : List Char}
    (hstop : f.symbols.Stops rest) :
    ∃ d, f.readDigits .empty (f.plainBody size n ++ rest) = (d, rest) ∧ d.count ≠ 0 ∧
      ∀ exponent, (d.magnitude exponent).value = |n.value| * 10 ^ exponent := by
  have hwhole : ∀ c ∈ f.wholeText n, c.isDigit := fun _ => isDigit_of_mem_wholeText
  have hfraction : ∀ c ∈ f.fractionText n, c.isDigit := fun _ => isDigit_of_mem_fractionText
  have hvalue := text_value (f := f) (n := n)
  have hshown := texts_ne_nil (f := f) (n := n)
  rw [plainBody_eq, List.append_assoc, List.append_assoc, readDigits_grouped hs hsize rfl hwhole,
    ReadDigits.foldl_push]
  unfold pointText
  split
  · rw [List.singleton_append, readDigits_point hs rfl, readDigits_digits _ hfraction,
      readDigits_stop hstop, ReadDigits.foldl_push]
    refine ⟨_, rfl, ?_, ?_⟩
    · rw [← List.length_pos_iff_ne_nil, List.length_append] at hshown
      simp only [ReadDigits.empty]
      omega
    · intro exponent
      rw [Nat.ofDigitChars_append] at hvalue
      simp only [ReadDigits.magnitude, ReadDigits.empty, Magnitude.value, hvalue, Option.map_some,
        Option.getD_some, Nat.zero_add]
      rw [mul_assoc, ← zpow_natCast, ← zpow_add₀ (by norm_num)]
      congr 2
      omega
  · rename_i hpoint
    have hnil : f.fractionText n = [] := by
      by_contra h
      exact hpoint (Or.inl h)
    rw [hnil, List.append_nil] at hvalue hshown
    rw [hnil, List.nil_append, List.nil_append, readDigits_stop hstop]
    refine ⟨_, rfl, ?_, ?_⟩
    · rw [← List.length_pos_iff_ne_nil] at hshown
      simp only [ReadDigits.empty]
      omega
    · intro exponent
      simp only [List.length_nil, pow_zero, mul_one] at hvalue
      simp [ReadDigits.magnitude, ReadDigits.empty, Magnitude.value, hvalue]

/-- The digits of an exponent. -/
theorem isDigit_of_mem_exponentDigits {length k : ℕ} {c : Char}
    (h : c ∈ Numeral.padded length (Nat.toDigits 10 k)) : c.isDigit :=
  Numeral.isDigit_of_mem_padded
    (fun _ hc => Nat.isDigit_of_mem_toDigits (by decide) (by decide) hc) h

theorem exponentDigits_ne_nil (length k : ℕ) :
    Numeral.padded length (Nat.toDigits 10 k) ≠ [] := by
  rw [← List.length_pos_iff_ne_nil, Numeral.length_padded]
  exact lt_max_of_lt_right (decimalLength_pos k)

theorem takeWhile_digits {digits rest : List Char} (h : ∀ c ∈ digits, c.isDigit)
    (hrest : ∀ c ∈ rest.head?, ¬c.isDigit) :
    (digits ++ rest).takeWhile Char.isDigit = digits ∧
      (digits ++ rest).dropWhile Char.isDigit = rest := by
  rw [List.takeWhile_append_of_pos h, List.dropWhile_append_of_pos h]
  cases rest with
  | nil => simp
  | cons c rest => simp [hrest c rfl]

theorem isPrefixOf?_append (before rest : List Char) :
    before.isPrefixOf? (before ++ rest) = some rest := by
  rw [List.isPrefixOf?_eq_some_iff_append_eq]

/-- The digits of an exponent are read as far as they go. -/
theorem readExponent?_append (hs : f.symbols.Regular) (negative : Bool) {digits rest : List Char}
    (hne : digits ≠ []) (hall : ∀ c ∈ digits, c.isDigit) (hrest : ∀ c ∈ rest.head?, ¬c.isDigit) :
    f.readExponent? (f.symbols.exponent.toList ++
      (if negative then [f.symbols.minus] else []) ++ digits ++ rest) =
      some (if negative then -(Nat.ofDigitChars 10 digits 0 : ℤ) else Nat.ofDigitChars 10 digits 0,
        rest) := by
  obtain ⟨htake, hdrop⟩ := takeWhile_digits hall hrest
  obtain ⟨c, more, rfl⟩ := List.exists_cons_of_ne_nil hne
  have hminus : c ≠ f.symbols.minus := by
    rintro rfl
    simpa [hs.minus] using hall _ List.mem_cons_self
  unfold readExponent?
  rw [List.append_assoc, List.append_assoc, isPrefixOf?_append]
  cases negative with
  | true =>
    simp only [bind, Option.bind, List.singleton_append, if_true, htake, hdrop, reduceCtorEq,
      if_false]
  | false =>
    rw [List.cons_append] at htake hdrop
    simp only [bind, Option.bind, List.nil_append, List.cons_append, hminus, if_false, htake, hdrop,
      Bool.false_eq_true, reduceCtorEq]

/-- An exponent is read back with its sign. -/
theorem readExponent?_exponentText (hs : f.symbols.Regular) (minDigits : ℕ) (exponent : ℤ)
    {rest : List Char} (hrest : ∀ c ∈ rest.head?, ¬c.isDigit) :
    f.readExponent? (f.exponentText minDigits exponent ++ rest) = some (exponent, rest) := by
  have hread := readExponent?_append hs (decide (exponent < 0))
    (exponentDigits_ne_nil minDigits exponent.natAbs)
    (fun _ hc => isDigit_of_mem_exponentDigits hc) hrest
  simp only [decide_eq_true_eq] at hread
  rw [exponentText, hread, Numeral.padded_value, Nat.ofDigitChars_ten_toDigits]
  split
  · rename_i hneg
    simp [abs_of_neg hneg]
  · rename_i hneg
    simp [abs_of_nonneg (not_lt.mp hneg)]

/-- Without the exponent symbol there is no exponent. -/
theorem readExponent?_none {rest : List Char} (h : ¬f.symbols.exponent.toList <+: rest) :
    f.readExponent? rest = none := by
  unfold readExponent?
  cases hp : f.symbols.exponent.toList.isPrefixOf? rest with
  | none => rfl
  | some tail =>
    rw [List.isPrefixOf?_eq_some_iff_append_eq] at hp
    exact absurd ⟨tail, hp⟩ h

theorem negative_mantissa : (f.mantissa n).1.negative = n.negative := by
  unfold mantissa
  split
  · rfl
  · simp

/-- Mantissa and exponent together are the number, rounded to the digits of the mantissa. Moving the
point over a carry changes nothing. -/
theorem value_mantissa (hn : n.IsExact) :
    (f.mantissa n).1.value * 10 ^ (f.mantissa n).2 =
      roundedToDigits (max f.pattern.minInteger 1 + f.pattern.maxFraction : ℕ) n.value := by
  unfold mantissa roundedToDigits
  split
  · rename_i hz
    simp [Numeral.isZero_iff.mp hz, roundedTo_zero]
  · rename_i hz
    have hne : n.value ≠ 0 := fun h => hz (Numeral.isZero_iff.mpr h)
    set length : ℤ := max f.pattern.minInteger 1 with hlength
    have hscale := roundedTo_scale (n.integerLength - length - f.pattern.maxFraction)
      (length - n.integerLength) n.value
    rw [show n.integerLength - length - f.pattern.maxFraction + (length - n.integerLength) =
      (-f.pattern.maxFraction : ℤ) by omega] at hscale
    dsimp only
    rw [Numeral.value_withIntegerLength, Numeral.value_round
      (Numeral.withIntegerLength_isExact hn _).source, Numeral.value_withIntegerLength, hscale,
      mul_assoc, mul_assoc, ← zpow_add₀ (by norm_num), ← zpow_add₀ (by norm_num)]
    generalize ((n.withIntegerLength length).round f.pattern.maxFraction).integerLength = carried
    rw [show length - n.integerLength + (length - carried + (n.integerLength - length +
      (carried - length))) = 0 by ring, zpow_zero, mul_one, Numeral.integerLength_eq hne]
    congr 1
    push_cast
    omega

/-- The number that is written for a number scaled by the pattern. -/
def rounded (f : Formatter) (x : ℚ) : ℚ :=
  match f.pattern.exponentDigits with
  | none => roundedTo (-f.pattern.maxFraction) x
  | some _ => roundedToDigits (max f.pattern.minInteger 1 + f.pattern.maxFraction : ℕ) x

/-- The sign that is written is that of the rounded number. -/
theorem body_negative (hn : n.IsExact) : (f.body n).1 = decide (f.rounded n.value < 0) := by
  unfold body rounded
  cases f.pattern.exponentDigits with
  | none =>
    dsimp only
    rw [← Numeral.value_round hn.source, ← Numeral.negative_iff, Numeral.negative_round]
  | some minDigits =>
    dsimp only
    rw [← value_mantissa hn, ← negative_mantissa (f := f), Numeral.negative_iff, decide_eq_decide]
    simp [mul_neg_iff, ten_zpow_pos, (ten_zpow_pos _).not_gt]

theorem exists_plainBody_cons (size : ℕ) :
    ∃ c rest, f.plainBody size n = c :: rest ∧ f.symbols.IsNumberSign c := by
  have hshown := texts_ne_nil (f := f) (n := n)
  rw [plainBody_eq]
  cases hw : f.wholeText n with
  | nil =>
    rw [hw, List.nil_append] at hshown
    refine ⟨f.symbols.decimal, f.fractionText n, ?_, Or.inr (Or.inl rfl)⟩
    simp [grouped, pointText, hshown]
  | cons c rest =>
    have hc : c.isDigit := isDigit_of_mem_wholeText (by rw [hw]; exact List.mem_cons_self)
    rw [grouped]
    split
    · exact ⟨c, _, rfl, Or.inl hc⟩
    · exact ⟨c, _, rfl, Or.inl hc⟩

theorem exists_body_cons : ∃ c rest, (f.body n).2 = c :: rest ∧ f.symbols.IsNumberSign c := by
  unfold body
  cases f.pattern.exponentDigits with
  | none => exact exists_plainBody_cons _
  | some minDigits =>
    obtain ⟨c, rest, hbody, hc⟩ := exists_plainBody_cons (f := f) (n := (f.mantissa n).1) 0
    dsimp only
    rw [hbody, List.cons_append]
    exact ⟨c, _, rfl, hc⟩

/-- Reading stops where the body ends and gives the number that it was written for. -/
theorem readMagnitude?_body (hs : f.symbols.Regular) (hn : n.IsExact) {rest : List Char}
    (hstop : f.symbols.Stops rest) (hexponent : ¬f.symbols.exponent.toList <+: rest) :
    ∃ m : Magnitude, f.readMagnitude? ((f.body n).2 ++ rest) = some (m, rest) ∧
      m.value = |f.rounded n.value| := by
  unfold body rounded readMagnitude?
  cases f.pattern.exponentDigits with
  | none =>
    obtain ⟨d, hread, hcount, hvalue⟩ :=
      readDigits_plainBody (n := n.round f.pattern.maxFraction) hs (Or.inr rfl) hstop
    refine ⟨d.magnitude 0, ?_, ?_⟩
    · simp only [hread, hcount, if_false, readExponent?_none hexponent]
    · rw [hvalue, Numeral.value_round hn.source, zpow_zero, mul_one]
  | some minDigits =>
    have hrest : ∀ c ∈ rest.head?, ¬c.isDigit := fun c hc hdigit => hstop c hc (Or.inl hdigit)
    have hsymbol : f.symbols.Stops (f.exponentText minDigits (f.mantissa n).2 ++ rest) := by
      unfold exponentText
      dsimp only
      rw [List.append_assoc, List.append_assoc]
      exact hs.exponent.stops _
    obtain ⟨d, hread, hcount, hvalue⟩ :=
      readDigits_plainBody (n := (f.mantissa n).1) hs (Or.inl rfl) hsymbol
    refine ⟨d.magnitude (f.mantissa n).2, ?_, ?_⟩
    · simp only [List.append_assoc, hread, hcount, if_false,
        readExponent?_exponentText hs minDigits _ hrest]
    · rw [hvalue, ← value_mantissa hn, abs_mul, abs_of_pos (ten_zpow_pos _)]

end Formatter

end Reckoner
