import Reckoner.Evaluation.Operation
import Reckoner.Proofs.NarrowedWords

namespace Reckoner

/-- The whole numbers that words of some bits are, one of them for the sign. -/
def FitsWord (bits : ℕ) (n : ℤ) : Prop :=
  -2 ^ (bits - 1) ≤ n ∧ n < 2 ^ (bits - 1)

theorem fitsWord_toInt (n : Int64) : FitsWord 64 n.toInt :=
  ⟨n.le_toInt, n.toInt_lt⟩

theorem int32?_eq_none_iff {n : ℤ} : int32? n = none ↔ ¬FitsWord 32 n := by
  rw [int32?, FitsWord, Int32.toInt_minValue, Int32.toInt_maxValue]
  split <;> simp <;> omega

theorem int64?_eq_none_iff {n : ℤ} : int64? n = none ↔ ¬FitsWord 64 n := by
  rw [int64?, FitsWord, Int64.toInt_minValue, Int64.toInt_maxValue]
  split <;> simp <;> omega

/-- The check for 64 bits on the way to 32 bits refuses nothing. -/
theorem bind_int64?_int32? (n : ℤ) : ((int64? n).bind fun word => int32? word.toInt) = int32? n := by
  cases hlong : int64? n with
  | some word => rw [Option.bind_some, int64?_eq_some_iff.mp hlong]
  | none =>
    have hwide : ¬FitsWord 64 n := int64?_eq_none_iff.mp hlong
    have hnarrow : ¬FitsWord 32 n := by
      unfold FitsWord at hwide ⊢
      omega
    rw [Option.bind_none, int32?_eq_none_iff.mpr hnarrow]

namespace ExactOperation

def name : ExactOperation → String
  | add => "addExact"
  | subtract => "subtractExact"
  | multiply => "multiplyExact"
  | negate => "negateExact"

/-- The result for whole numbers without bounds, as many as the operation takes. -/
def value? : ExactOperation → List ℤ → Option ℤ
  | add, [x, y] => some (x + y)
  | subtract, [x, y] => some (x - y)
  | multiply, [x, y] => some (x * y)
  | negate, [x] => some (-x)
  | _, _ => none

end ExactOperation

/-- A result is a whole number of a width, or an error if no word of that width is the number. -/
def IsChecked (result : Except EvalError Value) (width : Width) (bits : ℕ) (error : EvalError)
    (n : ℤ) : Prop :=
  (FitsWord bits n → ∃ v, result = .ok v ∧ v.Holds width n) ∧
    (¬FitsWord bits n → result = .error error)

theorem isChecked_of {α : Type} {word? : Option α} {result : Except EvalError Value}
    {width : Width} {bits : ℕ} {error : EvalError} {n : ℤ}
    (hsome : ∀ word, word? = some word → ∃ v, result = .ok v ∧ v.Holds width n)
    (hnone : word? = none → result = .error error) (hfits : word? = none ↔ ¬FitsWord bits n) :
    IsChecked result width bits error n := by
  cases word? with
  | some word => exact ⟨fun _ => hsome word rfl, fun hnot => nomatch hfits.mpr hnot⟩
  | none => exact ⟨fun h => absurd h (hfits.mp rfl), fun _ => hnone rfl⟩

theorem Value.isSome_whole?_iff {v : Value} : v.whole?.isSome ↔ v.kind.isIntegral := by
  cases v <;> simp [whole?, kind, Kind.isIntegral]

theorem Value.whole?_eq_none_iff {v : Value} : v.whole? = none ↔ ¬v.kind.isIntegral := by
  rw [← isSome_whole?_iff, Option.not_isSome_iff_eq_none]

namespace Operation

variable {name : String} {op : ExactOperation} {args : List Value} {v w : Value} {n : ℤ}
  {x y : Int64}

theorem exactResult_narrow :
    IsChecked (exactResult name true (int64? n)) .integer 32 (.evaluation name .integerOverflow)
      n := by
  apply isChecked_of _ _ int32?_eq_none_iff
  · intro word hword
    refine ⟨.integer word, ?_, rfl, int32?_eq_some_iff.mp hword⟩
    simp only [exactResult, if_true, bind_int64?_int32?, hword]
  · intro hnone
    simp only [exactResult, if_true, bind_int64?_int32?, hnone]

theorem exactResult_wide :
    IsChecked (exactResult name false (int64? n)) .long 64 (.evaluation name .longOverflow) n := by
  apply isChecked_of _ _ int64?_eq_none_iff
  · intro word hword
    refine ⟨.long word, ?_, rfl, int64?_eq_some_iff.mp hword⟩
    simp only [exactResult, Bool.false_eq_true, if_false, hword]
  · intro hnone
    simp only [exactResult, Bool.false_eq_true, if_false, hnone]

theorem runExact_single (hx : v.whole? = some x) :
    runExact name op [v] = exactResult name ([v].all isNarrow) (op.result? x 0) := by
  have hfirst : longArgument name [v] 0 = .ok x := longArgument_of_some rfl hx
  rw [runExact, hfirst]
  rfl

theorem runExact_pair (hx : v.whole? = some x) (hy : w.whole? = some y) :
    runExact name op [v, w] = exactResult name ([v, w].all isNarrow) (op.result? x y) := by
  have hfirst : longArgument name [v, w] 0 = .ok x := longArgument_of_some rfl hx
  have hsecond : longArgument name [v, w] 1 = .ok y := longArgument_of_some rfl hy
  rw [runExact, hfirst, hsecond]
  rfl

/-- The check for 64 bits is on the exact result. -/
theorem runExact_of_words (harity : args.length = (exact op).arity) {words : List Int64}
    (hwords : args.map Value.whole? = words.map some) :
    ∃ n, op.value? (words.map Int64.toInt) = some n ∧
      runExact name op args = exactResult name (args.all isNarrow) (int64? n) := by
  have hlength : words.length = args.length := by
    rw [← List.length_map some, ← hwords, List.length_map]
  cases op with
  | negate =>
    obtain ⟨v, rfl⟩ := List.length_eq_one_iff.mp harity
    obtain ⟨x, rfl⟩ := List.length_eq_one_iff.mp hlength
    simp only [List.map_cons, List.map_nil, List.cons.injEq, and_true] at hwords
    exact ⟨-x.toInt, rfl, runExact_single hwords⟩
  | _ =>
    obtain ⟨v, w, rfl⟩ := List.length_eq_two.mp harity
    obtain ⟨x, y, rfl⟩ := List.length_eq_two.mp hlength
    simp only [List.map_cons, List.map_nil, List.cons.injEq, and_true] at hwords
    exact ⟨_, rfl, runExact_pair hwords.1 hwords.2⟩

/-- The first argument that is no integer is the error, the ones after it are not looked at. -/
theorem runExact_of_foreign {before after : List Value}
    (harity : (before ++ v :: after).length = (exact op).arity)
    (hbefore : ∀ u ∈ before, u.kind.isIntegral) (hv : ¬v.kind.isIntegral) :
    runExact name op (before ++ v :: after) = .error (.mismatch name before.length .long v) := by
  have hnone : v.whole? = none := Value.whole?_eq_none_iff.mpr hv
  cases before with
  | nil =>
    have hfirst : longArgument name (v :: after) 0 = .error (.mismatch name 0 .long v) :=
      longArgument_of_none rfl hnone
    rw [List.nil_append, runExact, hfirst]
    rfl
  | cons u rest =>
    have hatMost : (exact op).arity ≤ 2 := by cases op <;> decide
    have hpair : rest.length + after.length = 0 := by
      simp only [List.cons_append, List.length_cons, List.length_append] at harity
      omega
    obtain ⟨hrest, hafter⟩ := Nat.add_eq_zero_iff.mp hpair
    obtain rfl := List.length_eq_zero_iff.mp hrest
    obtain rfl := List.length_eq_zero_iff.mp hafter
    obtain ⟨x, hx⟩ := Option.isSome_iff_exists.mp
      (Value.isSome_whole?_iff.mpr (hbefore u List.mem_cons_self))
    have hfirst : longArgument name [u, v] 0 = .ok x := longArgument_of_some rfl hx
    have hsecond : longArgument name [u, v] 1 = .error (.mismatch name 1 .long v) :=
      longArgument_of_none rfl hnone
    change runExact name op [u, v] = _
    rw [runExact, hfirst, hsecond]
    rfl

theorem isNarrow_iff : isNarrow v ↔ v.kind = .byte ∨ v.kind = .short ∨ v.kind = .integer := by
  simp only [isNarrow, Bool.or_eq_true, beq_iff_eq, or_assoc]

/-- Arithmetic on integers of at most 32 bits gives the exact result in 32 bits or fails, with a long
among them it does so in 64 bits. The first argument that is no integer is an error. -/
theorem exact_overflow (op : ExactOperation) (args : List Value)
    (harity : args.length = (exact op).arity) :
    (∀ words : List Int64, args.map Value.whole? = words.map some →
      ∃ n, op.value? (words.map Int64.toInt) = some n ∧
        ((∀ v ∈ args, v.kind = .byte ∨ v.kind = .short ∨ v.kind = .integer) →
          IsChecked (invoke op.name args).result .integer 32
            (.evaluation op.name .integerOverflow) n) ∧
        ((∃ v ∈ args, v.kind = .long) →
          IsChecked (invoke op.name args).result .long 64
            (.evaluation op.name .longOverflow) n)) ∧
    (∀ before v after, args = before ++ v :: after → (∀ u ∈ before, u.kind.isIntegral) →
      ¬v.kind.isIntegral →
      (invoke op.name args).result = .error (.mismatch op.name before.length .long v)) ∧
    Failure.integerOverflow.message = "integer overflow" ∧
    Failure.longOverflow.message = "long overflow" := by
  have hname : standard.lookup op.name = some (exact op) := by cases op <;> rfl
  have hrun : (invoke op.name args).result = runExact op.name op args :=
    invoke_result hname harity.symm
  refine ⟨?_, ?_, rfl, rfl⟩
  · intro words hwords
    obtain ⟨n, hvalue, hresult⟩ := runExact_of_words harity hwords
    refine ⟨n, hvalue, ?_, ?_⟩
    · intro hkinds
      have hnarrow : args.all isNarrow = true :=
        List.all_eq_true.mpr fun v hv => isNarrow_iff.mpr (hkinds v hv)
      rw [hrun, hresult, hnarrow]
      exact exactResult_narrow
    · rintro ⟨v, hv, hkind⟩
      have hwide : args.all isNarrow = false := by
        apply List.all_eq_false.mpr
        refine ⟨v, hv, ?_⟩
        rw [isNarrow_iff, hkind]
        decide
      rw [hrun, hresult, hwide]
      exact exactResult_wide
  · intro before v after hargs hbefore hv
    subst hargs
    rw [hrun]
    exact runExact_of_foreign harity hbefore hv

/-- The product is one more than the largest integer of 32 bits, which is a long's product too. -/
theorem exact_overflow_past :
    (invoke "multiplyExact" [.integer 65536, .integer 32768]).result =
        .error (.evaluation "multiplyExact" .integerOverflow) ∧
      (∃ v, (invoke "multiplyExact" [.integer 65536, .long 32768]).result = .ok v ∧
        v.Holds .long 2147483648) ∧
      (invoke "multiplyExact" [.long 65536, .string "32768"]).result =
        .error (.mismatch "multiplyExact" 1 .long (.string "32768")) := by
  have hpast : ¬FitsWord 32 2147483648 := by simp [FitsWord]
  have hfits : FitsWord 64 2147483648 := by simp [FitsWord]
  have hkinds : ∀ v ∈ [Value.integer 65536, Value.integer 32768],
      v.kind = .byte ∨ v.kind = .short ∨ v.kind = .integer := by
    simp [Value.kind]
  have hlong : ∃ v ∈ [Value.integer 65536, Value.long 32768], v.kind = .long := by
    simp [Value.kind]
  have hbefore : ∀ u ∈ [Value.long 65536], u.kind.isIntegral := by
    simp [Value.kind, Kind.isIntegral]
  have hstring : ¬(Value.string "32768").kind.isIntegral := by decide
  obtain ⟨hnarrow, -⟩ := exact_overflow .multiply [.integer 65536, .integer 32768] rfl
  obtain ⟨hwide, -⟩ := exact_overflow .multiply [.integer 65536, .long 32768] rfl
  obtain ⟨-, hforeign, -⟩ := exact_overflow .multiply [.long 65536, .string "32768"] rfl
  obtain ⟨n, hn, hchecked, -⟩ := hnarrow [65536, 32768] rfl
  obtain ⟨m, hm, -, hchecked'⟩ := hwide [65536, 32768] rfl
  obtain rfl : 2147483648 = n := Option.some.inj hn
  obtain rfl : 2147483648 = m := Option.some.inj hm
  exact ⟨(hchecked hkinds).2 hpast, (hchecked' hlong).1 hfits,
    hforeign [.long 65536] (.string "32768") [] rfl hbefore hstring⟩

end Operation

end Reckoner
