import Reckoner.Proofs.ArgumentBounds
import Reckoner.Proofs.Layout
import Reckoner.Proofs.ReturnKinds

namespace Reckoner

namespace Signature

variable {s : Signature} {args : List Value} {error : EvalError}

/-- The error for arguments that a signature does not take: their number is wrong, or one of them
is of a wrong kind and none before it. -/
inductive Rejects (s : Signature) (args : List Value) : EvalError → Prop
  | arity (wrong : args.length < s.minArity ∨ s.maxArity.any (· < args.length)) :
      Rejects s args (.invalidArity s.name s.minArity s.maxArity args.length)
  | kind {index : ℕ} {p : Parameter} {v : Value}
      (right : ¬(args.length < s.minArity ∨ s.maxArity.any (· < args.length)))
      (parameter : s.parameters[index]? = some p) (argument : args[index]? = some v)
      (wrong : p.kind.accepts v.kind = false)
      (first : ∀ i < index, ∀ q w, s.parameters[i]? = some q → args[i]? = some w →
        q.kind.accepts w.kind = true) :
      Rejects s args (.mismatch s.name index p.kind v)

theorem checkKinds_error {name : String} {start : ℕ} {parameters : List Parameter}
    (h : checkKinds name start parameters args = .error error) :
    ∃ index p v, parameters[index]? = some p ∧ args[index]? = some v ∧
      p.kind.accepts v.kind = false ∧
      (∀ i < index, ∀ q w, parameters[i]? = some q → args[i]? = some w →
        q.kind.accepts w.kind = true) ∧
      error = .mismatch name (start + index) p.kind v := by
  induction parameters generalizing start args with
  | nil => simp [checkKinds] at h
  | cons p parameters ih =>
    cases args with
    | nil => simp [checkKinds] at h
    | cons v args =>
      rw [checkKinds] at h
      split at h
      · rename_i haccepts
        obtain ⟨index, q, w, hq, hw, hwrong, hfirst, rfl⟩ := ih h
        refine ⟨index + 1, q, w, hq, hw, hwrong, ?_, ?_⟩
        · intro i hi r u hr hu
          cases i with
          | zero =>
            obtain rfl := Option.some.inj hr
            obtain rfl := Option.some.inj hu
            exact haccepts
          | succ i => exact hfirst i (by omega) r u hr hu
        · rw [Nat.add_right_comm, Nat.add_assoc]
      · rename_i hwrong
        obtain rfl := Except.error.inj h
        exact ⟨0, p, v, rfl, rfl, Bool.eq_false_iff.mpr hwrong, by simp, rfl⟩

theorem rejects_of_check (h : s.check args = .error error) : s.Rejects args error := by
  unfold check at h
  split at h
  · rename_i hwrong
    obtain rfl := Except.error.inj h
    exact .arity hwrong
  · rename_i hright
    obtain ⟨index, p, v, hp, hv, hwrong, hfirst, rfl⟩ := checkKinds_error h
    rw [Nat.zero_add]
    exact .kind hright hp hv hwrong hfirst

theorem checkKinds_ok_iff {name : String} {start : ℕ} {parameters : List Parameter}
    (h : args.length = parameters.length) :
    checkKinds name start parameters args = .ok () ↔
      List.Forall₂ (fun p v => p.kind.accepts v.kind = true) parameters args := by
  induction parameters generalizing start args with
  | nil =>
    obtain rfl := List.length_eq_zero_iff.mp h
    exact iff_of_true rfl .nil
  | cons p parameters ih =>
    cases args with
    | nil => simp at h
    | cons v args =>
      rw [checkKinds, List.forall₂_cons]
      split
      · rename_i haccepts
        exact (ih (Nat.succ.inj h)).trans (and_iff_right haccepts).symm
      · rename_i hwrong
        exact iff_of_false (by simp) (fun hall => hwrong hall.1)

/-- Where no parameter may be left out, the arguments fit the parameters one by one. -/
theorem check_ok_iff (hfixed : s.variadic = false)
    (hrequired : ∀ p ∈ s.parameters, p.optional = false) :
    s.check args = .ok () ↔
      List.Forall₂ (fun p v => p.kind.accepts v.kind = true) s.parameters args := by
  have hmin : s.minArity = s.parameters.length := by
    rw [minArity, List.countP_eq_length]
    intro p hp
    simp [hrequired p hp]
  have hmax : s.maxArity = some s.parameters.length := by simp [maxArity, hfixed]
  unfold check
  simp only [hmin, hmax, Option.any_some, decide_eq_true_eq]
  split
  · rename_i hwrong
    refine iff_of_false (by simp) (fun hall => ?_)
    have hlength := hall.length_eq
    omega
  · rename_i hright
    exact checkKinds_ok_iff (by omega)

end Signature

theorem Kind.number_accepts_iff (v : Value) :
    number.accepts v.kind = true ↔ v.isNumeric = true := by
  cases v <;> simp [accepts, Value.isNumeric, Value.kind, isNumeric]

theorem Kind.string_accepts_iff (v : Value) :
    string.accepts v.kind = true ↔ ∃ text, v = .string text := by
  cases v <;> simp [accepts, Value.kind]

namespace Value

variable {v : Value}

theorem exists_narrow? (h : v.isNumeric = true) (width : Width) :
    ∃ w, v.narrow? width = some w := by
  cases v with
  | string | collection | map => simp [isNumeric, kind, Kind.isNumeric] at h
  | _ => cases width <;> exact ⟨_, rfl⟩

end Value

/-- The patterns of all locales compile, and have no exponent. -/
theorem Locale.languageConventions_compile (language : String) :
    (∃ p, Pattern.compile (languageConventions language).2.1 = .ok p ∧ p.exponentDigits = none) ∧
      ∃ p, Pattern.compile (languageConventions language).2.2 = .ok p ∧ p.exponentDigits = none := by
  unfold languageConventions
  split <;> exact ⟨⟨_, rfl, rfl⟩, _, rfl, rfl⟩

namespace Formatter

theorem exists_writeDouble? (f : Formatter) (x : Double) : ∃ text, f.writeDouble? x = some text := by
  unfold writeDouble?
  split
  · exact ⟨_, rfl⟩
  · exact ⟨_, rfl⟩
  · rename_i negative rank _
    obtain ⟨n, hn, -⟩ := Numeral.exists_ofRank? negative rank
    rw [hn]
    exact ⟨_, rfl⟩

/-- The text of every number is plain, so that every number is written. -/
theorem exists_write? (f : Formatter) {v : Value} (h : v.isNumeric = true) :
    ∃ text, f.write? v = some text := by
  cases v with
  | string | collection | map => simp [Value.isNumeric, Value.kind, Kind.isNumeric] at h
  | float x => exact f.exists_writeDouble? x.convert
  | double x => exact f.exists_writeDouble? x
  | decimal d => exact ⟨_, writePlain?_exact d.toExact⟩
  | byte n | short n | integer n | long n => exact ⟨_, writePlain?_whole _⟩

theorem exists_currency (locale : Locale) :
    ∃ f, currency locale = .ok f ∧ f.pattern.exponentDigits = none := by
  obtain ⟨p, hp, hplain⟩ := (Locale.languageConventions_compile locale.language).1
  have hpattern : Pattern.compile locale.conventions.currencyPattern = .ok p := hp
  rw [currency, hpattern]
  exact ⟨_, rfl, hplain⟩

theorem exists_percent (locale : Locale) :
    ∃ f, percent locale = .ok f ∧ f.pattern.exponentDigits = none := by
  obtain ⟨p, hp, hplain⟩ := (Locale.languageConventions_compile locale.language).2
  have hpattern : Pattern.compile locale.conventions.percentPattern = .ok p := hp
  rw [percent, ofPattern, hpattern]
  exact ⟨_, rfl, hplain⟩

end Formatter

variable {name source : String} {args : List Value} {locale : Locale} {v : Value}

theorem exists_narrowValue (hv : v.isNumeric = true) (name : String) (width : Width) :
    ∃ w, narrowValue name width [v] = .ok w := by
  obtain ⟨w, hw⟩ := Value.exists_narrow? hv width
  refine ⟨w, ?_⟩
  simp only [narrowValue, List.getElem?_cons_zero, hw]

theorem doubleArgument_zero {x : Double} (hx : v.double? = some x) (name : String) :
    doubleArgument name [v] 0 = .ok x := by
  have hv : argument name [v] 0 = .ok v := rfl
  simp only [doubleArgument, hv, bind, Except.bind, hx]
  rfl

/-- What writes through doubles writes one argument as the double that it is. -/
theorem bind_writeDouble {x : Double} (hx : v.double? = some x)
    {format : Except FormatError Formatter} {f : Formatter} (hf : format = .ok f) (name : String) :
    (do
      let x ← doubleArgument name [v] 0
      let formatter ← formatterOf format
      return Value.string (formatter.writeDouble x)) =
      (.ok (.string (f.writeDouble x)) : Except EvalError Value) := by
  rw [doubleArgument_zero hx, hf]
  rfl

theorem exists_currencyFormat (hv : v.isNumeric = true) (name : String) (locale : Locale) :
    ∃ w, currencyFormat name [v] locale = .ok w := by
  obtain ⟨x, hx⟩ := Value.exists_double? hv
  obtain ⟨f, hf, -⟩ := Formatter.exists_currency locale
  exact ⟨_, bind_writeDouble hx hf name⟩

theorem exists_percentFormat (hv : v.isNumeric = true) (name : String) (locale : Locale) :
    ∃ w, percentFormat name [v] locale = .ok w := by
  obtain ⟨x, hx⟩ := Value.exists_double? hv
  obtain ⟨f, hf, -⟩ := Formatter.exists_percent locale
  exact ⟨_, bind_writeDouble hx hf name⟩

theorem exists_numberFormat (hv : v.isNumeric = true) {p : Pattern}
    (hp : Pattern.compile source = .ok p) (name : String) (locale : Locale) :
    ∃ w, numberFormat name [.string source, v] locale = .ok w := by
  obtain ⟨text, htext⟩ := Formatter.exists_write? ⟨p, locale.conventions.symbols⟩ hv
  have hformatter : Formatter.ofPattern source locale = .ok ⟨p, locale.conventions.symbols⟩ := by
    rw [Formatter.ofPattern, hp]
    rfl
  have hpattern : textArgument name [.string source, v] 0 = .ok source := rfl
  have hvalue : argument name [.string source, v] 1 = .ok v := rfl
  refine ⟨.string text, ?_⟩
  simp only [numberFormat, hpattern, hformatter, hvalue, formatterOf, Except.mapError, bind,
    Except.bind, htext]
  rfl

theorem numberFormat_error {fault : FormatError} (hp : Pattern.compile source = .error fault)
    (name : String) (v : Value) (locale : Locale) :
    numberFormat name [.string source, v] locale = .error (.formatPattern fault) := by
  have hformatter : Formatter.ofPattern source locale = .error fault := by
    rw [Formatter.ofPattern, hp]
    rfl
  change (formatterOf (Formatter.ofPattern source locale) >>= _) = _
  rw [hformatter]
  rfl

namespace Builtin

/-- The built-ins that take one number. -/
def ofNumber : List Builtin :=
  [byteValue, shortValue, integerValue, longValue, floatValue, doubleValue, currencyFormat,
   percentFormat]

variable {b : Builtin}

theorem check_ofNumber_iff (hb : b ∈ ofNumber) :
    b.signature.check args = .ok () ↔ ∃ v, args = [v] ∧ v.isNumeric = true := by
  obtain ⟨returns, hsignature⟩ : ∃ returns, b.signature = b.conversion returns := by
    cases b with
    | sum | product | mean | numberFormat | parseNumber => simp [ofNumber] at hb
    | _ => exact ⟨_, rfl⟩
  rw [hsignature, Signature.check_ok_iff rfl (by simp [conversion, Parameter.required])]
  simp only [conversion, Parameter.required, List.forall₂_cons_left_iff, List.forall₂_nil_left_iff,
    Kind.number_accepts_iff]
  constructor
  · rintro ⟨v, rest, hv, rfl, rfl⟩
    exact ⟨v, rfl, hv⟩
  · rintro ⟨v, rfl, hv⟩
    exact ⟨v, [], hv, rfl, rfl⟩

theorem check_numberFormat_iff :
    numberFormat.signature.check args = .ok () ↔
      ∃ source v, args = [.string source, v] ∧ v.isNumeric = true := by
  rw [Signature.check_ok_iff rfl (by simp [signature, Parameter.required])]
  simp only [signature, Parameter.required, List.forall₂_cons_left_iff, List.forall₂_nil_left_iff,
    Kind.number_accepts_iff, Kind.string_accepts_iff]
  constructor
  · rintro ⟨_, _, ⟨source, rfl⟩, ⟨v, rest, hv, rfl, rfl⟩, rfl⟩
    exact ⟨source, v, rfl, hv⟩
  · rintro ⟨source, v, rfl, hv⟩
    exact ⟨_, _, ⟨source, rfl⟩, ⟨v, [], hv, rfl, rfl⟩, rfl⟩

/-- What the signature accepts has a result. -/
theorem exists_run_ofNumber (hb : b ∈ ofNumber) (hv : v.isNumeric = true) (rule : ProductRule)
    (locale : Locale) : ∃ w, b.run rule locale [v] = .ok w := by
  cases b with
  | sum | product | mean | numberFormat | parseNumber => simp [ofNumber] at hb
  | byteValue | shortValue | integerValue | longValue | floatValue | doubleValue =>
    exact exists_narrowValue hv _ _
  | currencyFormat => exact exists_currencyFormat hv _ locale
  | percentFormat => exact exists_percentFormat hv _ locale

end Builtin

namespace Evaluator

variable {e : Evaluator} {b : Builtin} {error : EvalError}

theorem evaluate_ofNumber (e : Evaluator) (hb : b ∈ Builtin.ofNumber) (hv : v.isNumeric = true)
    (locale : Locale) : (e.evaluate b.name [v] locale).result =
      b.run e.config.product locale [v] := by
  rw [evaluate_builtin, evaluateBuiltin_eq, (Builtin.check_ofNumber_iff hb).mpr ⟨v, rfl, hv⟩]

theorem evaluate_ofNumber_iff (hb : b ∈ Builtin.ofNumber) :
    (∃ w, (e.evaluate b.name args locale).result = .ok w) ↔
      ∃ v, args = [v] ∧ v.isNumeric = true := by
  rw [evaluate_builtin, evaluateBuiltin_eq, ← Builtin.check_ofNumber_iff hb]
  cases hcheck : b.signature.check args with
  | error error => simp
  | ok done =>
    obtain ⟨v, rfl, hv⟩ := (Builtin.check_ofNumber_iff hb).mp hcheck
    exact iff_of_true (Builtin.exists_run_ofNumber hb hv _ locale) rfl

theorem evaluate_ofNumber_error (hb : b ∈ Builtin.ofNumber)
    (h : (e.evaluate b.name args locale).result = .error error) :
    b.signature.check args = .error error := by
  rw [evaluate_builtin, evaluateBuiltin_eq] at h
  cases hcheck : b.signature.check args with
  | error fault =>
    rw [hcheck] at h
    rw [Except.error.inj h]
  | ok done =>
    obtain ⟨v, rfl, hv⟩ := (Builtin.check_ofNumber_iff hb).mp hcheck
    obtain ⟨w, hw⟩ := Builtin.exists_run_ofNumber hb hv e.config.product locale
    rw [hcheck] at h
    exact absurd (hw.symm.trans h) (by simp)

theorem evaluate_numberFormat_iff :
    (∃ w, (e.evaluate Builtin.numberFormat.name args locale).result = .ok w) ↔
      ∃ source v p, args = [.string source, v] ∧ v.isNumeric = true ∧
        Pattern.compile source = .ok p := by
  rw [evaluate_builtin, evaluateBuiltin_eq]
  constructor
  · rintro ⟨w, hw⟩
    cases hcheck : Builtin.numberFormat.signature.check args with
    | error error => simp [hcheck] at hw
    | ok done =>
      obtain ⟨source, v, rfl, hv⟩ := Builtin.check_numberFormat_iff.mp hcheck
      cases hp : Pattern.compile source with
      | ok p => exact ⟨source, v, p, rfl, hv, hp⟩
      | error fault =>
        rw [hcheck] at hw
        exact absurd ((numberFormat_error hp _ v locale).symm.trans hw) (by simp)
  · rintro ⟨source, v, p, rfl, hv, hp⟩
    rw [Builtin.check_numberFormat_iff.mpr ⟨source, v, rfl, hv⟩]
    exact exists_numberFormat hv hp _ locale

theorem evaluate_numberFormat_error
    (h : (e.evaluate Builtin.numberFormat.name args locale).result = .error error) :
    Builtin.numberFormat.signature.check args = .error error ∨
      ∃ source v fault, args = [.string source, v] ∧ v.isNumeric = true ∧
        Pattern.compile source = .error fault ∧ error = .formatPattern fault := by
  rw [evaluate_builtin, evaluateBuiltin_eq] at h
  cases hcheck : Builtin.numberFormat.signature.check args with
  | error fault =>
    rw [hcheck] at h
    exact Or.inl (by rw [Except.error.inj h])
  | ok done =>
    right
    obtain ⟨source, v, rfl, hv⟩ := Builtin.check_numberFormat_iff.mp hcheck
    rw [hcheck] at h
    cases hp : Pattern.compile source with
    | ok p =>
      obtain ⟨w, hw⟩ := exists_numberFormat hv hp Builtin.numberFormat.name locale
      exact absurd (hw.symm.trans h) (by simp)
    | error fault =>
      have hfault := (numberFormat_error hp Builtin.numberFormat.name v locale).symm.trans h
      exact ⟨source, v, fault, rfl, hv, hp, (Except.error.inj hfault).symm⟩

/-- No argument is missed. The built-ins of one number and `numberFormat` fail just for arguments
that the signature does not take and for a pattern that does not compile, with the error for it. -/
theorem fixed_arity_sound (e : Evaluator) (args : List Value) (locale : Locale) :
    ((∀ b : Builtin, InBounds (e.evaluate b.name args locale).result) ∧
      (∀ name, InBounds (Operations.standard.invoke name args).result) ∧
      ∀ name, InBounds (e.evaluate name args locale).result ∨
        (∃ g ∈ e.expression, (e.evaluate name args locale).result = g args) ∨
        (e.evaluate name args locale).result = (e.operations.invoke name args).result) ∧
    (∀ b ∈ Builtin.ofNumber, (∃ w, (e.evaluate b.name args locale).result = .ok w) ↔
      ∃ v, args = [v] ∧ v.isNumeric = true) ∧
    ((∃ w, (e.evaluate Builtin.numberFormat.name args locale).result = .ok w) ↔
      ∃ source v p, args = [.string source, v] ∧ v.isNumeric = true ∧
        Pattern.compile source = .ok p) ∧
    ∀ b ∈ Builtin.numberFormat :: Builtin.ofNumber, ∀ error,
      (e.evaluate b.name args locale).result = .error error →
        b.signature.check args = .error error ∧ b.signature.Rejects args error ∨
        b = .numberFormat ∧ ∃ source v fault, args = [.string source, v] ∧
          v.isNumeric = true ∧ Pattern.compile source = .error fault ∧
          error = .formatPattern fault := by
  refine ⟨⟨?_, fun name => Operation.invoke_inBounds name args, fun name =>
    e.evaluate_inBounds name args locale⟩, fun b hb => evaluate_ofNumber_iff hb,
    evaluate_numberFormat_iff, ?_⟩
  · intro b
    rw [evaluate_builtin]
    exact e.evaluateBuiltin_inBounds b args locale
  · intro b hb error herror
    rcases List.mem_cons.mp hb with rfl | hb
    · rcases evaluate_numberFormat_error herror with hcheck | hpattern
      · exact Or.inl ⟨hcheck, Signature.rejects_of_check hcheck⟩
      · exact Or.inr ⟨rfl, hpattern⟩
    · have hcheck := evaluate_ofNumber_error hb herror
      exact Or.inl ⟨hcheck, Signature.rejects_of_check hcheck⟩

end Evaluator

end Reckoner
