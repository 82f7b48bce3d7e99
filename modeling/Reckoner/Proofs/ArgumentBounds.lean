import Reckoner.Proofs.AccumulatorHistory
import Reckoner.Proofs.Precedence

namespace Reckoner

/-- The error of a look at an argument that is not there. -/
def EvalError.isMissing : EvalError → Bool
  | evaluation _ (.missingArgument _) => true
  | _ => false

/-- A result on the way to which no argument was missing. -/
def InBounds {α : Type} : Except EvalError α → Prop
  | .ok _ => True
  | .error error => error.isMissing = false

variable {α β : Type} {name : String} {args : List Value} {index : ℕ}

theorem InBounds.bind {x : Except EvalError α} {g : α → Except EvalError β} (hx : InBounds x)
    (hg : ∀ a, InBounds (g a)) : InBounds (x >>= g) := by
  cases x with
  | ok a => exact hg a
  | error error => exact hx

/-- The arguments that are there are those before the end of the list. -/
theorem argument_inBounds_iff : InBounds (argument name args index) ↔ index < args.length := by
  unfold argument
  split
  · rename_i v hv
    exact iff_of_true trivial (List.getElem?_eq_some_iff.mp hv).1
  · rename_i hnone
    exact iff_of_false (by simp [InBounds, EvalError.isMissing])
      (Nat.not_lt.mpr (List.getElem?_eq_none_iff.mp hnone))

theorem textArgument_inBounds (h : index < args.length) :
    InBounds (textArgument name args index) := by
  refine (argument_inBounds_iff.mpr h).bind fun v => ?_
  cases v.text? with
  | some text => trivial
  | none => rfl

theorem doubleArgument_inBounds (h : index < args.length) :
    InBounds (doubleArgument name args index) := by
  refine (argument_inBounds_iff.mpr h).bind fun v => ?_
  cases v.double? with
  | some x => trivial
  | none => rfl

theorem longArgument_inBounds (h : index < args.length) :
    InBounds (longArgument name args index) := by
  refine (argument_inBounds_iff.mpr h).bind fun v => ?_
  cases v.whole? with
  | some n => trivial
  | none => rfl

namespace Operation

theorem exactResult_inBounds (name : String) (narrow : Bool) (result : Option Int64) :
    InBounds (exactResult name narrow result) := by
  unfold exactResult
  split
  · split
    · trivial
    · rfl
  · split
    · trivial
    · rfl

theorem runExact_inBounds {op : ExactOperation} (h : (exact op).arity = args.length) :
    InBounds (runExact name op args) := by
  have hfirst : 0 < args.length := by
    rw [← h]
    cases op <;> decide
  refine (longArgument_inBounds hfirst).bind fun x => ?_
  dsimp only
  split
  · rename_i hsecond
    have hlength : 1 < args.length := by simpa using hsecond
    exact (longArgument_inBounds hlength).bind fun y => exactResult_inBounds ..
  · exact exactResult_inBounds ..

theorem runAbs_inBounds (h : 0 < args.length) : InBounds (runAbs name args) := by
  refine (argument_inBounds_iff.mpr h).bind fun v => ?_
  split
  · trivial
  · trivial
  · trivial
  · trivial
  · exact (doubleArgument_inBounds h).bind fun x => trivial

theorem runExtremum_inBounds (wanted : Ordering) (h : 1 < args.length) :
    InBounds (runExtremum name wanted args) := by
  have hfirst : 0 < args.length := by omega
  refine (argument_inBounds_iff.mpr hfirst).bind fun v =>
    (argument_inBounds_iff.mpr h).bind fun w => ?_
  split
  · trivial
  · refine (doubleArgument_inBounds hfirst).bind fun x =>
      (doubleArgument_inBounds h).bind fun y => ?_
    split
    · trivial
    · trivial

theorem divisor_inBounds (h : 1 < args.length) : InBounds (divisor name args) := by
  refine (longArgument_inBounds h).bind fun y => ?_
  split
  · rfl
  · trivial

/-- An operation looks at no more arguments than its arity. -/
theorem run_inBounds {op : Operation} (h : op.arity = args.length) :
    InBounds (op.run name args) := by
  have hfirst : 0 < args.length := by
    rw [← h]
    cases op with
    | exact op => cases op <;> decide
    | _ => simp [arity]
  have hfirstDouble : InBounds (doubleArgument name args 0) := doubleArgument_inBounds hfirst
  have hfirstLong : InBounds (longArgument name args 0) := longArgument_inBounds hfirst
  cases op with
  | unary g => exact hfirstDouble.bind fun x => trivial
  | binary g =>
    exact hfirstDouble.bind fun x => (doubleArgument_inBounds h.le).bind fun y => trivial
  | exact op => exact runExact_inBounds h
  | abs => exact runAbs_inBounds hfirst
  | round => exact hfirstDouble.bind fun x => trivial
  | max => exact runExtremum_inBounds .gt h.le
  | min => exact runExtremum_inBounds .lt h.le
  | floorDiv => exact hfirstLong.bind fun x => (divisor_inBounds h.le).bind fun y => trivial
  | floorMod => exact hfirstLong.bind fun x => (divisor_inBounds h.le).bind fun y => trivial
  | getExponent => exact hfirstDouble.bind fun x => trivial
  | scalb => exact hfirstDouble.bind fun x => (longArgument_inBounds h.le).bind fun n => trivial

theorem invoke_inBounds (name : String) (args : List Value) :
    InBounds (invoke name args).result := by
  unfold invoke
  split
  · rename_i op _
    split
    · rename_i harity
      have hrun : InBounds (op.run name args) := run_inBounds harity
      split
      · trivial
      · rename_i error herror
        rwa [herror] at hrun
    · rfl
  · rfl

end Operation

theorem Accumulator.run_inBounds (acc : Accumulator) (name : String) (args : List Value) :
    InBounds (acc.run name args) := by
  unfold run
  split
  · trivial
  · rename_i done error hrun
    have herror : (acc.call (.all name args)).2 = .error error := congrArg Prod.snd hrun
    obtain ⟨_, index, leaf, _, _, _, hrefuses⟩ := call_error_iff.mp herror
    cases hrefuses <;> rfl

theorem meanKind_inBounds (name : String) (variant : Option Value) :
    InBounds (meanKind name variant) := by
  unfold meanKind
  split
  · trivial
  · split
    · trivial
    · rfl
  · rfl

theorem median_inBounds (name : String) (v : Value) : InBounds (median name v) := by
  unfold median
  split
  · trivial
  · trivial
  · split
    · rfl
    · trivial
  · trivial

theorem mean_inBounds (name : String) (args : List Value) : InBounds (mean name args) := by
  refine (meanKind_inBounds name args[1]?).bind fun kind => ?_
  split
  · trivial
  · rename_i values _
    cases kind with
    | median => exact median_inBounds name values
    | arithmetic =>
      refine (Accumulator.run_inBounds _ name [values]).bind fun acc => ?_
      split <;> trivial
    | geometric =>
      refine (Accumulator.run_inBounds _ name [values]).bind fun acc => ?_
      split <;> trivial
    | harmonic =>
      refine (Accumulator.run_inBounds _ name [values]).bind fun acc => ?_
      split
      · trivial
      · split
        · rfl
        · trivial

theorem narrowValue_inBounds (name : String) (width : Width) (args : List Value) :
    InBounds (narrowValue name width args) := by
  unfold narrowValue
  split
  · rfl
  · split
    · trivial
    · rfl

theorem formatterOf_inBounds (f : Except FormatError Formatter) : InBounds (formatterOf f) := by
  cases f with
  | ok f => trivial
  | error error => rfl

variable {locale : Locale}

theorem numberFormat_inBounds (h : 1 < args.length) :
    InBounds (numberFormat name args locale) := by
  refine (textArgument_inBounds (by omega)).bind fun pattern =>
    (formatterOf_inBounds _).bind fun formatter => (argument_inBounds_iff.mpr h).bind fun v => ?_
  split
  · trivial
  · rfl

theorem currencyFormat_inBounds (h : 0 < args.length) :
    InBounds (currencyFormat name args locale) :=
  (doubleArgument_inBounds h).bind fun _ => (formatterOf_inBounds _).bind fun _ => trivial

theorem percentFormat_inBounds (h : 0 < args.length) :
    InBounds (percentFormat name args locale) :=
  (doubleArgument_inBounds h).bind fun _ => (formatterOf_inBounds _).bind fun _ => trivial

theorem parseNumber_inBounds (h : 1 < args.length) : InBounds (parseNumber name args locale) := by
  refine (textArgument_inBounds (by omega)).bind fun pattern =>
    (textArgument_inBounds h).bind fun source => (formatterOf_inBounds _).bind fun formatter => ?_
  cases formatter.read source with
  | ok v => trivial
  | error error => rfl

namespace Signature

theorem checkKinds_inBounds (name : String) (index : ℕ) (parameters : List Parameter)
    (args : List Value) : InBounds (checkKinds name index parameters args) := by
  induction parameters generalizing index args with
  | nil => trivial
  | cons p parameters ih =>
    cases args with
    | nil => trivial
    | cons v args =>
      rw [checkKinds]
      split
      · exact ih (index + 1) args
      · rfl

theorem minArity_le_of_check {s : Signature} (h : s.check args = .ok ()) :
    s.minArity ≤ args.length := by
  unfold check at h
  split at h
  · simp at h
  · rename_i harity
    exact Nat.not_lt.mp (fun hlt => harity (Or.inl hlt))

theorem check_inBounds (s : Signature) (args : List Value) : InBounds (s.check args) := by
  unfold check
  split
  · rfl
  · exact checkKinds_inBounds ..

end Signature

/-- A built-in looks at no argument that its signature does not ask for. -/
theorem Builtin.run_inBounds {b : Builtin} (rule : ProductRule)
    (h : b.signature.minArity ≤ args.length) : InBounds (b.run rule locale args) := by
  cases b with
  | sum => exact (Accumulator.run_inBounds _ _ args).bind fun acc => trivial
  | product => exact (Accumulator.run_inBounds _ _ args).bind fun acc => trivial
  | mean => exact mean_inBounds _ args
  | byteValue | shortValue | integerValue | longValue | floatValue | doubleValue =>
    exact narrowValue_inBounds ..
  | numberFormat => exact numberFormat_inBounds h
  | currencyFormat => exact currencyFormat_inBounds h
  | percentFormat => exact percentFormat_inBounds h
  | parseNumber => exact parseNumber_inBounds h

namespace Evaluator

theorem evaluateBuiltin_inBounds (e : Evaluator) (b : Builtin) (args : List Value)
    (locale : Locale) : InBounds (e.evaluateBuiltin b args locale) := by
  unfold evaluateBuiltin
  cases hcheck : b.signature.check args with
  | error error =>
    have hbounds := b.signature.check_inBounds args
    rwa [hcheck] at hbounds
  | ok _ => exact Builtin.run_inBounds _ (Signature.minArity_le_of_check hcheck)

/-- What is not in bounds is the result of a collaborator, handed on as it is. -/
theorem evaluate_inBounds (e : Evaluator) (name : String) (args : List Value) (locale : Locale) :
    InBounds (e.evaluate name args locale).result ∨
      (∃ g ∈ e.expression, (e.evaluate name args locale).result = g args) ∨
      (e.evaluate name args locale).result = (e.operations.invoke name args).result := by
  by_cases hempty : name = ""
  · left
    rw [evaluate, if_pos hempty]
    rfl
  · by_cases hbuiltin : ∃ b : Builtin, name = b.name
    · obtain ⟨b, rfl⟩ := hbuiltin
      left
      rw [evaluate_builtin]
      exact e.evaluateBuiltin_inBounds b args locale
    · rw [not_exists] at hbuiltin
      by_cases hname : name = e.config.expression
      · rw [evaluate_expression hempty hbuiltin hname, evaluateExpression]
        cases e.expression with
        | none => exact Or.inl rfl
        | some g => exact Or.inr (Or.inl ⟨g, rfl, rfl⟩)
      · exact Or.inr (Or.inr (evaluate_operation hempty hbuiltin hname args locale))

end Evaluator

end Reckoner
