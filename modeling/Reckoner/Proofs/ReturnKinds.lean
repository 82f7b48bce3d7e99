import Reckoner.Proofs.BuiltFormatter
import Reckoner.Proofs.BuiltinRoutes
import Reckoner.Proofs.WrappedTotals

namespace Reckoner

theorem Kind.accepts_of_isNumeric {k : Kind} (h : k.isNumeric = true) :
    number.accepts k = true := by
  cases k <;> simp_all [accepts, isNumeric]

/-- The kind that a value is narrowed to. -/
def Width.kind : Width → Kind
  | byte => .byte
  | short => .short
  | integer => .integer
  | long => .long
  | float => .float
  | double => .double

variable {name : String} {args : List Value} {locale : Locale} {v : Value}

theorem narrowValue_kind {width : Width} (h : narrowValue name width args = .ok v) :
    v.kind = width.kind := by
  unfold narrowValue at h
  split at h
  · simp at h
  · split at h
    · rename_i narrowed hnarrow
      simp only [Except.ok.injEq] at h
      subst h
      cases width <;> obtain ⟨_, _, rfl⟩ := Option.map_eq_some_iff.mp hnarrow <;> rfl
    · simp at h

/-- Whatever is read is a number. -/
theorem Formatter.read_isNumeric {f : Formatter} {text : String} (h : f.read text = .ok v) :
    v.isNumeric = true := by
  have hvalue (n : Numeral) : (valueOf n).isNumeric = true := by
    unfold valueOf
    split
    · split <;> rfl
    · rfl
  have hchars : f.readChars text.toList = .ok v := by
    unfold read at h
    split at h
    · rename_i hread
      rw [hread, Except.ok.inj h]
    · simp at h
  unfold readChars at hchars
  split at hchars
  · obtain rfl := Except.ok.inj hchars
    rfl
  · split at hchars
    · simp at hchars
    · dsimp only at hchars
      split at hchars
      · split at hchars
        · obtain rfl := Except.ok.inj hchars
          rfl
        · simp at hchars
      · split at hchars
        · simp at hchars
        · split at hchars
          · obtain rfl := Except.ok.inj hchars
            exact hvalue _
          · simp at hchars

theorem parseNumber_isNumeric (h : parseNumber name args locale = .ok v) :
    v.isNumeric = true := by
  simp only [parseNumber, bind_eq_ok] at h
  obtain ⟨_, _, source, _, formatter, _, h⟩ := h
  cases hread : formatter.read source with
  | ok w =>
    rw [hread] at h
    obtain rfl := Except.ok.inj h
    exact Formatter.read_isNumeric hread
  | error error =>
    rw [hread] at h
    simp [Except.mapError] at h

theorem numberFormat_kind (h : numberFormat name args locale = .ok v) : v.kind = .string := by
  simp only [numberFormat, bind_eq_ok] at h
  obtain ⟨_, _, formatter, _, value, _, h⟩ := h
  split at h
  · obtain rfl := Except.ok.inj h
    rfl
  · simp at h

theorem currencyFormat_kind (h : currencyFormat name args locale = .ok v) : v.kind = .string := by
  simp only [currencyFormat, bind_eq_ok] at h
  obtain ⟨_, _, formatter, _, h⟩ := h
  obtain rfl := Except.ok.inj h
  rfl

theorem percentFormat_kind (h : percentFormat name args locale = .ok v) : v.kind = .string := by
  simp only [percentFormat, bind_eq_ok] at h
  obtain ⟨_, _, formatter, _, h⟩ := h
  obtain rfl := Except.ok.inj h
  rfl

namespace Builtin

/-- The total of the leaves for the built-ins that give one. -/
def total? (b : Builtin) (rule : ProductRule) (args : List Value) : Option ℚ :=
  match b with
  | sum => some (Combiner.add.combined 0 (args.flatMap Value.leaves))
  | product => some (rule.combiner.combined 1 (args.flatMap Value.leaves))
  | _ => none

theorem returns_of_total? {b : Builtin} {rule : ProductRule} {q : ℚ}
    (hq : b.total? rule args = some q) : b.signature.returns = .decimal := by
  cases b with
  | sum => rfl
  | product => rfl
  | _ => simp [total?] at hq

theorem run_isTotal {b : Builtin} {rule : ProductRule} {q : ℚ}
    (h : b.run rule locale args = .ok v) (hq : b.total? rule args = some q) : v.IsTotal q := by
  cases b with
  | sum =>
    obtain rfl := Option.some.inj hq
    exact (sum_totals _ args).total v h
  | product =>
    obtain rfl := Option.some.inj hq
    exact (product_totals _ args rule).total v h
  | _ => simp [total?] at hq

/-- What is not a total always has the kind that the signature says. -/
theorem run_accepts {b : Builtin} {rule : ProductRule} (h : b.run rule locale args = .ok v)
    (hb : b.total? rule args = none) : b.signature.returns.accepts v.kind = true := by
  cases b with
  | sum => simp [total?] at hb
  | product => simp [total?] at hb
  | mean => rfl
  | byteValue => rw [narrowValue_kind h]; rfl
  | shortValue => rw [narrowValue_kind h]; rfl
  | integerValue => rw [narrowValue_kind h]; rfl
  | longValue => rw [narrowValue_kind h]; rfl
  | floatValue => rw [narrowValue_kind h]; rfl
  | doubleValue => rw [narrowValue_kind h]; rfl
  | numberFormat => rw [numberFormat_kind h]; rfl
  | currencyFormat => rw [currencyFormat_kind h]; rfl
  | percentFormat => rw [percentFormat_kind h]; rfl
  | parseNumber => exact Kind.accepts_of_isNumeric (parseNumber_isNumeric h)

end Builtin

/-- A built-in gives what its signature says, but for a total that no decimal holds, which is the
nearest double. -/
theorem Evaluator.returns_accepts_iff {e : Evaluator} {b : Builtin}
    (h : (e.evaluate b.name args locale).result = .ok v) :
    (b.signature.returns.accepts v.kind = true ↔
      ∀ q ∈ b.total? e.config.product args, ∃ d : Decimal, d.value = q) ∧
    ∀ q ∈ b.total? e.config.product args, (¬∃ d : Decimal, d.value = q) →
      ∃ x : Double, v = .double x ∧ x.IsNearest q := by
  rw [evaluate_builtin, evaluateBuiltin, bind_eq_ok] at h
  obtain ⟨_, _, hrun⟩ := h
  cases htotal : b.total? e.config.product args with
  | none => exact ⟨iff_of_true (Builtin.run_accepts hrun htotal) (by simp), by simp⟩
  | some q =>
    obtain ⟨hdecimal, -, hdouble⟩ := (Builtin.run_isTotal hrun htotal).kind
    have haccepts : Kind.decimal.accepts v.kind = true ↔ ∃ d, v = .decimal d := by
      cases v <;> simp [Value.kind, Kind.accepts]
    rw [Builtin.returns_of_total? htotal, haccepts, hdecimal]
    exact ⟨by simp, by simpa using hdouble⟩

namespace Evaluator

/-- An evaluator with nothing but the built-ins. -/
def alone : Evaluator :=
  ⟨.standard, ⟨[], fun name args => ⟨[], .error (.unknownFunction name args.length)⟩⟩, none⟩

/-- The largest decimal and a quarter, the sum of which needs more than 96 bits. -/
def brimful : List Value :=
  [.decimal ⟨79228162514264337593543950335, 0, by decide, by decide⟩,
   .decimal ⟨25, 2, by decide, by decide⟩]

theorem total?_brimful (rule : ProductRule) :
    Builtin.sum.total? rule brimful = some (79228162514264337593543950335 + 1 / 4) := by
  norm_num [Builtin.total?, brimful, Combiner.combined, Value.leaves, Value.shown, Value.number?,
    Decimal.value]

theorem brimful_not_decimal : ¬∃ d : Decimal, d.value = 79228162514264337593543950335 + 1 / 4 := by
  rintro ⟨d, hd⟩
  have hbound : |(d.mantissa : ℚ)| < 2 ^ 96 := by
    have hlt : |d.mantissa| < 2 ^ 96 := by
      rw [Int.abs_eq_natAbs]
      exact_mod_cast d.mantissa_lt
    exact_mod_cast hlt
  rw [Decimal.value, div_eq_iff (by positivity)] at hd
  rcases Nat.eq_zero_or_pos d.scale with hscale | hscale
  · rw [hscale, pow_zero, mul_one] at hd
    have hwhole : d.mantissa * 4 = 79228162514264337593543950335 * 4 + 1 := by
      have hcast : (d.mantissa : ℚ) * 4 = 79228162514264337593543950335 * 4 + 1 := by
        rw [hd]
        norm_num
      exact_mod_cast hcast
    omega
  · have hten : (10 : ℚ) ≤ 10 ^ d.scale := by
      simpa using pow_le_pow_right₀ (show (1 : ℚ) ≤ 10 by norm_num) hscale
    have hle := le_abs_self (d.mantissa : ℚ)
    nlinarith

theorem evaluate_brimful :
    ∃ v, (alone.evaluate Builtin.sum.name brimful .enUS).result = .ok v ∧
      v.IsTotal (79228162514264337593543950335 + 1 / 4) := by
  have hfinite : ∀ leaf ∈ brimful.flatMap Value.leaves, leaf.isNumeric ∧ leaf.IsFinite := by
    simp [brimful, Value.leaves, Value.isNumeric, Value.kind, Kind.isNumeric, Value.IsFinite]
  have htotals := sum_totals "sum" brimful
  obtain ⟨v, hv⟩ := htotals.ok_iff.mpr hfinite
  have htotal := htotals.total v hv
  rw [Option.some.inj (total?_brimful .multiply)] at htotal
  refine ⟨v, ?_, htotal⟩
  rw [evaluate_builtin, evaluateBuiltin]
  exact hv

/-- A sum is declared a decimal, but it need not be one. -/
theorem sum_not_decimal :
    ∃ v, (alone.evaluate Builtin.sum.name brimful .enUS).result = .ok v ∧
      Builtin.sum.signature.returns.accepts v.kind = false := by
  obtain ⟨v, hv, htotal⟩ := evaluate_brimful
  obtain ⟨x, rfl, _⟩ := htotal.kind.2.2 brimful_not_decimal
  exact ⟨_, hv, rfl⟩

theorem returns_accepts_brimful :
    ∃ v, (alone.evaluate Builtin.sum.name brimful .enUS).result = .ok v ∧
      (Builtin.sum.signature.returns.accepts v.kind = true ↔
        ∃ d : Decimal, d.value = 79228162514264337593543950335 + 1 / 4) ∧
      ∃ x : Double, v = .double x ∧ x.IsNearest (79228162514264337593543950335 + 1 / 4) := by
  obtain ⟨v, hv, _⟩ := evaluate_brimful
  obtain ⟨haccepts, hnearest⟩ := returns_accepts_iff hv
  have htotal := total?_brimful alone.config.product
  refine ⟨v, hv, haccepts.trans ?_, hnearest _ htotal brimful_not_decimal⟩
  rw [htotal]
  simp

end Evaluator

end Reckoner
