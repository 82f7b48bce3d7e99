import Mathlib.Data.Int.ModEq
import Reckoner.Proofs.WholeOrder
import Reckoner.Value.Narrowing

namespace Reckoner

/-- A rational without its fraction. -/
def wholePart (x : ℚ) : ℤ :=
  if 0 ≤ x then ⌊x⌋ else ⌈x⌉

@[simp]
theorem wholePart_intCast (n : ℤ) : wholePart n = n := by
  unfold wholePart
  split <;> simp

theorem wholePart_neg (x : ℚ) : wholePart (-x) = -wholePart x := by
  rcases lt_trichotomy x 0 with hx | rfl | hx
  · rw [wholePart, if_pos (by linarith), wholePart, if_neg (by linarith), Int.floor_neg]
  · simp [wholePart]
  · rw [wholePart, if_neg (by linarith), wholePart, if_pos hx.le, Int.ceil_neg]

theorem wholePart_div (a : ℤ) (b : ℕ) : wholePart ((a : ℚ) / b) = a.tdiv b := by
  have hnonneg (c : ℤ) (hc : 0 ≤ c) : wholePart ((c : ℚ) / b) = c.tdiv b := by
    rw [wholePart, if_pos (div_nonneg (by exact_mod_cast hc) (Nat.cast_nonneg b)),
      Rat.floor_intCast_div_natCast, Int.tdiv_eq_ediv_of_nonneg hc]
  rcases le_total 0 a with ha | ha
  · exact hnonneg a ha
  · have hneg := hnonneg (-a) (by omega)
    rw [Int.cast_neg, neg_div, wholePart_neg, Int.neg_tdiv] at hneg
    omega

/-- A word of some bits, one of them for the sign, that has the low bits of a whole number. -/
structure IsLowWord (bits : ℕ) (whole word : ℤ) : Prop where
  congr : word ≡ whole [ZMOD 2 ^ bits]
  low : -2 ^ (bits - 1) ≤ word
  high : word < 2 ^ (bits - 1)

/-- There is just one such word. -/
theorem isLowWord_iff {bits : ℕ} (hbits : 0 < bits) {whole word : ℤ} :
    IsLowWord bits whole word ↔ word = whole.bmod (2 ^ bits) := by
  have hsize : ((2 ^ bits : ℕ) : ℤ) = 2 * 2 ^ (bits - 1) := by
    rw [← pow_succ', Nat.sub_add_cancel hbits, Nat.cast_pow, Nat.cast_ofNat]
  have hbounds : -2 ^ (bits - 1) ≤ word ∧ word < 2 ^ (bits - 1) ↔
      -(((2 ^ bits : ℕ) : ℤ) / 2) ≤ word ∧ word < (((2 ^ bits : ℕ) : ℤ) + 1) / 2 := by
    rw [hsize]
    omega
  have hcongr : word ≡ whole [ZMOD 2 ^ bits] ↔ ((2 ^ bits : ℕ) : ℤ) ∣ word - whole := by
    rw [Int.modEq_comm, Int.modEq_iff_dvd, Nat.cast_pow, Nat.cast_ofNat]
  rw [eq_comm, Int.bmod_eq_iff (Nat.two_pow_pos bits), ← and_assoc, ← hbounds, ← hcongr]
  exact ⟨fun h => ⟨⟨h.low, h.high⟩, h.congr⟩, fun h => ⟨h.2, h.1.1, h.1.2⟩⟩

/-- The bits of a whole number of a width. -/
def Width.bits? : Width → Option ℕ
  | byte => some 8
  | short => some 16
  | integer => some 32
  | long => some 64
  | float | double => none

theorem Width.bits?_pos {width : Width} {bits : ℕ} (h : width.bits? = some bits) : 0 < bits := by
  cases width <;> simp only [bits?, Option.some.injEq, reduceCtorEq] at h <;> omega

theorem Width.bits?_large {width : Width} {bits : ℕ} (h : width.bits? = some bits)
    (hbits : 32 ≤ bits) : width = integer ∧ bits = 32 ∨ width = long ∧ bits = 64 := by
  cases width <;> simp only [bits?, Option.some.injEq, reduceCtorEq] at h <;> subst h
  case integer => exact Or.inl ⟨rfl, rfl⟩
  case long => exact Or.inr ⟨rfl, rfl⟩
  all_goals omega

/-- The whole part of a number, clamped to the words of some bits; zero for a NaN. -/
def Binary.clamped {f : BinaryFormat} (bits : ℕ) : Binary f → ℤ
  | nan _ => 0
  | infinite negative => if negative then -2 ^ (bits - 1) else 2 ^ (bits - 1) - 1
  | finite negative rank =>
    max (-2 ^ (bits - 1)) (min (2 ^ (bits - 1) - 1) (wholePart (finite negative rank).stored))

theorem Binary.truncateClamped_eq {f : BinaryFormat} (bits : ℕ) (x : Binary f) :
    x.truncateClamped (-2 ^ (bits - 1)) (2 ^ (bits - 1) - 1) = x.clamped bits := by
  cases x with
  | nan => rfl
  | infinite => rfl
  | finite negative rank =>
    have hwhole : wholePart (f.value rank) = (f.units rank / f.scale : ℕ) := by
      have hdiv := wholePart_div (f.units rank) f.scale
      rwa [Int.cast_natCast, ← Int.ofNat_tdiv] at hdiv
    have hstored : wholePart (finite negative rank : Binary f).stored =
        if negative then -((f.units rank / f.scale : ℕ) : ℤ) else (f.units rank / f.scale : ℕ) := by
      rw [stored, ← hwhole]
      split
      · exact wholePart_neg _
      · rfl
    rw [truncateClamped, clamped, hstored]
    rfl

theorem Decimal.wholePart_value (d : Decimal) : wholePart d.value = d.truncate := by
  have hdiv := wholePart_div d.mantissa (10 ^ d.scale)
  rwa [Nat.cast_pow, Nat.cast_ofNat] at hdiv

namespace Value

/-- A value of a width that is a whole number. -/
def Holds (width : Width) (n : ℤ) : Value → Prop
  | byte m => width = .byte ∧ m.toInt = n
  | short m => width = .short ∧ m.toInt = n
  | integer m => width = .integer ∧ m.toInt = n
  | long m => width = .long ∧ m.toInt = n
  | _ => False

variable {v w : Value} {width : Width} {bits : ℕ} {n : ℤ} {x : ℚ}

theorem Holds.unique (hv : v.Holds width n) (hw : w.Holds width n) : v = w := by
  cases v <;> cases w <;> simp only [Holds] at hv hw <;> obtain ⟨rfl, rfl⟩ := hv <;>
    simp only [reduceCtorEq, false_and, true_and] at hw
  · rw [Int8.toInt_inj.mp hw]
  · rw [Int16.toInt_inj.mp hw]
  · rw [Int32.toInt_inj.mp hw]
  · rw [Int64.toInt_inj.mp hw]

theorem Holds.number? (h : v.Holds width n) : v.number? = some (n : ℚ) := by
  cases v <;> simp only [Holds] at h <;> obtain ⟨rfl, rfl⟩ := h <;> rfl

/-- Bytes, shorts and integers are taken of the integer of 32 bits. -/
theorem narrow?_of_narrow32? {word : Int32} (h : v.narrow32? = some word)
    (hwidth : width.bits? = some bits) (hbits : bits ≤ 32) :
    ∃ r, v.narrow? width = some r ∧ r.Holds width (word.toInt.bmod (2 ^ bits)) := by
  cases width <;> simp only [Width.bits?, Option.some.injEq, reduceCtorEq] at hwidth <;>
    subst hwidth
  case byte =>
    exact ⟨.byte word.toInt8, by rw [narrow?, h, Option.map_some], rfl, word.toInt_toInt8⟩
  case short =>
    exact ⟨.short word.toInt16, by rw [narrow?, h, Option.map_some], rfl, word.toInt_toInt16⟩
  case integer =>
    exact ⟨.integer word, by rw [narrow?, h, Option.map_some], rfl, word.toInt_bmod.symm⟩
  case long => omega

theorem narrow?_of_narrow64? {word : Int64} (h : v.narrow64? = some word) :
    ∃ r, v.narrow? .long = some r ∧ r.Holds .long word.toInt :=
  ⟨.long word, by rw [narrow?, h, Option.map_some], rfl, rfl⟩

/-- A number that is held exactly has its low bits in both words that others are taken of. -/
theorem exists_words_of_number? (h : v.number? = some x) :
    ∃ word : Int64, v.narrow64? = some word ∧ v.narrow32? = some word.toInt32 ∧
      word.toInt = (wholePart x).bmod (2 ^ 64) := by
  have hwhole (word : Int64) : word.toInt = (wholePart (word.toInt : ℚ)).bmod (2 ^ 64) := by
    rw [wholePart_intCast]
    exact word.toInt_bmod.symm
  cases v <;> simp only [Value.number?, Option.some.injEq, reduceCtorEq] at h <;> subst h
  case byte m => exact ⟨m.toInt64, rfl, rfl, m.toInt_toInt64 ▸ hwhole m.toInt64⟩
  case short m => exact ⟨m.toInt64, rfl, rfl, m.toInt_toInt64 ▸ hwhole m.toInt64⟩
  case integer m => exact ⟨m.toInt64, rfl, rfl, m.toInt_toInt64 ▸ hwhole m.toInt64⟩
  case long m => exact ⟨m, rfl, rfl, hwhole m⟩
  case decimal d =>
    refine ⟨Int64.ofInt d.truncate, rfl, by rw [Int64.toInt32_ofInt]; rfl, ?_⟩
    rw [Int64.toInt_ofInt, d.wholePart_value]
    rfl

/-- What is held exactly is cut to its low bits, through whatever words it goes. -/
theorem narrow?_of_number? (h : v.number? = some x) (hwidth : width.bits? = some bits) :
    ∃ r, v.narrow? width = some r ∧ r.Holds width ((wholePart x).bmod (2 ^ bits)) := by
  obtain ⟨word, hlong, hinteger, hword⟩ := exists_words_of_number? h
  rcases Nat.lt_or_ge 32 bits with hlarge | hsmall
  · obtain ⟨rfl, rfl⟩ := (Width.bits?_large hwidth hlarge.le).resolve_left fun h => by omega
    rw [← hword]
    exact narrow?_of_narrow64? hlong
  · obtain ⟨r, hr, hholds⟩ := narrow?_of_narrow32? hinteger hwidth hsmall
    have hlow : bits ≤ 64 := by omega
    rw [Int64.toInt_toInt32, hword, Int.bmod_bmod_of_dvd (pow_dvd_pow 2 hsmall),
      Int.bmod_bmod_of_dvd (pow_dvd_pow 2 hlow)] at hholds
    exact ⟨r, hr, hholds⟩

end Value

namespace Binary

variable {f : BinaryFormat}

theorem clamped_bounds (bits : ℕ) (x : Binary f) :
    -2 ^ (bits - 1) ≤ x.clamped bits ∧ x.clamped bits < 2 ^ (bits - 1) := by
  have hpos : (0 : ℤ) < 2 ^ (bits - 1) := by positivity
  cases x with
  | nan => exact ⟨by rw [clamped]; omega, hpos⟩
  | infinite negative => cases negative <;> simp only [clamped] <;> omega
  | finite negative rank =>
    rw [clamped]
    omega

end Binary

namespace Value

variable {f : BinaryFormat} {width : Width} {bits : ℕ} {v : Value}

/-- A floating point number is clamped before it is cut to a byte or a short. -/
theorem exists_words_ofBinary (x : Binary f) :
    (∃ word, (ofBinary x).narrow32? = some word ∧ word.toInt = x.clamped 32) ∧
      ∃ word, (ofBinary x).narrow64? = some word ∧ word.toInt = x.clamped 64 := by
  obtain ⟨hlow, hhigh⟩ := x.clamped_bounds 32
  obtain ⟨hlow', hhigh'⟩ := x.clamped_bounds 64
  refine ⟨⟨Int32.ofInt (x.clamped 32), ?_, Int32.toInt_ofInt_of_le hlow hhigh⟩,
    Int64.ofInt (x.clamped 64), ?_, Int64.toInt_ofInt_of_le hlow' hhigh'⟩
  · rw [← x.truncateClamped_eq]
    cases f <;> rfl
  · rw [← x.truncateClamped_eq]
    cases f <;> rfl

theorem narrow?_ofBinary (x : Binary f) (hwidth : width.bits? = some bits) (hbits : bits ≤ 32) :
    ∃ r, (ofBinary x).narrow? width = some r ∧ r.Holds width ((x.clamped 32).bmod (2 ^ bits)) := by
  obtain ⟨word, hword, hclamped⟩ := (exists_words_ofBinary x).1
  rw [← hclamped]
  exact narrow?_of_narrow32? hword hwidth hbits

/-- A numeric value holds its number exactly or is a floating point number. -/
theorem exists_number?_or_ofBinary (h : v.isNumeric) :
    (∃ x, v.number? = some x) ∨
      (v.kind = .float ∨ v.kind = .double) ∧ ∃ (f : BinaryFormat) (x : Binary f), v = ofBinary x := by
  cases v with
  | float x => exact Or.inr ⟨Or.inl rfl, .single, x, rfl⟩
  | double x => exact Or.inr ⟨Or.inr rfl, .double, x, rfl⟩
  | string | collection | map => simp [isNumeric, kind, Kind.isNumeric] at h
  | _ => exact Or.inl ⟨_, rfl⟩

/-- What is cut to words of some bits once is cut further as if it had not been. -/
theorem Holds.narrow? {wide narrow : Width} {wideBits narrowBits : ℕ} {t : ℤ} {r s : Value}
    (hr : r.Holds wide (t.bmod (2 ^ wideBits))) (hs : s.Holds narrow (t.bmod (2 ^ narrowBits)))
    (hnarrow : narrow.bits? = some narrowBits) (hle : narrowBits ≤ wideBits) :
    r.narrow? narrow = some s := by
  obtain ⟨s', hs', hholds⟩ := narrow?_of_number? hr.number? hnarrow
  rw [wholePart_intCast, Int.bmod_bmod_of_dvd (pow_dvd_pow 2 hle)] at hholds
  rw [hs', hholds.unique hs]

/-- Numbers that are held exactly are narrowed to their low bits, floating point numbers are clamped,
and no word on the way to a narrower one makes a difference. -/
theorem narrowing_of_words (v : Value) :
    (∀ x, v.number? = some x → ∀ width bits, width.bits? = some bits →
      ∃ n r, (∀ word, IsLowWord bits (wholePart x) word ↔ word = n) ∧
        v.narrow? width = some r ∧ r.Holds width n) ∧
    (∀ (f : BinaryFormat) (x : Binary f), v = ofBinary x → ∀ width bits,
      width.bits? = some bits → 32 ≤ bits →
      ∃ r, v.narrow? width = some r ∧ r.Holds width (x.clamped bits)) ∧
    (v.isNumeric → ∀ wide narrow wideBits narrowBits, wide.bits? = some wideBits →
      narrow.bits? = some narrowBits → narrowBits ≤ wideBits →
      (wideBits ≤ 32 ∨ v.kind ≠ .float ∧ v.kind ≠ .double) →
      ∃ r s, v.narrow? wide = some r ∧ r.narrow? narrow = some s ∧ v.narrow? narrow = some s) := by
  refine ⟨fun x hx width bits hwidth => ?_, ?_, fun hv wide narrow wideBits narrowBits hwide
    hnarrow hle hwidest => ?_⟩
  · obtain ⟨r, hr, hholds⟩ := narrow?_of_number? hx hwidth
    exact ⟨_, r, fun word => isLowWord_iff (Width.bits?_pos hwidth), hr, hholds⟩
  · rintro f x rfl width bits hwidth hbits
    obtain ⟨⟨word, hword, hclamped⟩, word', hword', hclamped'⟩ := exists_words_ofBinary x
    rcases Width.bits?_large hwidth hbits with ⟨rfl, rfl⟩ | ⟨rfl, rfl⟩
    · exact ⟨.integer word, by rw [Value.narrow?, hword, Option.map_some], rfl, hclamped⟩
    · rw [← hclamped']
      exact narrow?_of_narrow64? hword'
  · rcases exists_number?_or_ofBinary hv with ⟨x, hx⟩ | ⟨hfloating, f, x, rfl⟩
    · obtain ⟨r, hr, hrHolds⟩ := narrow?_of_number? hx hwide
      obtain ⟨s, hs, hsHolds⟩ := narrow?_of_number? hx hnarrow
      exact ⟨r, s, hr, hrHolds.narrow? hsHolds hnarrow hle, hs⟩
    · have hbits : wideBits ≤ 32 := hwidest.resolve_right fun hnot =>
        hfloating.elim hnot.1 hnot.2
      obtain ⟨r, hr, hrHolds⟩ := narrow?_ofBinary x hwide hbits
      obtain ⟨s, hs, hsHolds⟩ := narrow?_ofBinary x hnarrow (hle.trans hbits)
      exact ⟨r, s, hr, hrHolds.narrow? hsHolds hnarrow hle, hs⟩

/-- All 96 bits of the largest decimal are set, so that all words of it are minus one. -/
theorem narrowing_of_words_largest :
    let v := Value.decimal ⟨2 ^ 96 - 1, 0, by decide, by decide⟩
    v.number? = some ((2 ^ 96 - 1 : ℤ) : ℚ) ∧ IsLowWord 64 (2 ^ 96 - 1) (-1) ∧
      v.narrow? .long = some (.long (-1)) ∧ v.isNumeric ∧ v.kind ≠ .float ∧ v.kind ≠ .double ∧
      ∃ s, (Value.long (-1)).narrow? .byte = some s ∧ v.narrow? .byte = some s := by
  intro v
  have hv : v.number? = some ((2 ^ 96 - 1 : ℤ) : ℚ) := by
    norm_num [v, Value.number?, Decimal.value]
  have hword : IsLowWord 64 (2 ^ 96 - 1) (-1) := (isLowWord_iff (by decide)).mpr (by decide)
  have hnumeric : v.isNumeric := rfl
  have hkind : v.kind ≠ .float ∧ v.kind ≠ .double := by decide
  obtain ⟨hlow, -, hpath⟩ := narrowing_of_words v
  obtain ⟨n, r, hunique, hr, hholds⟩ := hlow _ hv .long 64 rfl
  obtain ⟨r', s, hr', hs, hs'⟩ :=
    hpath hnumeric .long .byte 64 8 rfl rfl (by decide) (Or.inr hkind)
  rw [wholePart_intCast] at hunique
  obtain rfl := (hunique (-1)).mp hword
  have hminus : (Value.long (-1)).Holds .long (-1) := ⟨rfl, rfl⟩
  obtain rfl := hholds.unique hminus
  obtain rfl : Value.long (-1) = r' := Option.some.inj (hr.symm.trans hr')
  exact ⟨hv, hword, hr, hnumeric, hkind.1, hkind.2, s, hs, hs'⟩

end Value

end Reckoner
