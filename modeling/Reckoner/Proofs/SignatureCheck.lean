import Reckoner.Proofs.FixedArity

namespace Reckoner

/-- What may stand where a kind is asked for: any value, any number, or the values of that kind. -/
inductive Kind.Takes : Kind → Value → Prop
  | any (v : Value) : Takes .any v
  | number {v : Value} (numeric : v.isNumeric) : Takes .number v
  | own (v : Value) : Takes v.kind v

theorem Kind.accepts_iff_takes {declared : Kind} {v : Value} :
    declared.accepts v.kind = true ↔ declared.Takes v := by
  constructor
  · intro h
    by_cases hown : declared = v.kind
    · rw [hown]
      exact .own v
    · cases declared with
      | any => exact .any v
      | number => exact .number ((number_accepts_iff v).mp h)
      | _ => cases v <;> simp [accepts, Value.kind] at h hown
  · intro h
    cases h with
    | any => simp [accepts]
    | number numeric => exact (number_accepts_iff v).mpr numeric
    | own => cases v <;> rfl

namespace Signature

variable {s : Signature} {name : String} {start index : ℕ} {p : Parameter} {v : Value}
  {parameters : List Parameter} {args more : List Value} {error : EvalError}

/-- The numbers of arguments that a signature takes: there is one for each parameter that may not
be left out, and there are no more than parameters unless the signature is variadic. -/
structure TakesCount (s : Signature) (count : ℕ) : Prop where
  enough : (s.parameters.filter fun p => !p.optional).length ≤ count
  atMost : s.variadic = false → count ≤ s.parameters.length

/-- The parameter at an index takes the argument there. Past the end of either list there is
nothing to compare. -/
def FitsAt (parameters : List Parameter) (args : List Value) (index : ℕ) : Prop :=
  ∀ p v, parameters[index]? = some p → args[index]? = some v → p.kind.accepts v.kind = true

theorem forall_fitsAt_cons :
    (∀ index, FitsAt (p :: parameters) (v :: args) index) ↔
      p.kind.accepts v.kind = true ∧ ∀ index, FitsAt parameters args index := by
  constructor
  · intro h
    exact ⟨h 0 p v rfl rfl, fun index => h (index + 1)⟩
  · rintro ⟨hfirst, hrest⟩ index
    cases index with
    | zero =>
      intro q w hq hw
      simp at hq hw
      subst q w
      exact hfirst
    | succ index => exact hrest index

/-- The walk goes on to the end of the shorter list, so that it misses no pair. -/
theorem checkKinds_eq_ok_iff :
    checkKinds name start parameters args = .ok () ↔
      ∀ index, FitsAt parameters args index := by
  induction parameters generalizing start args with
  | nil => simp [checkKinds, FitsAt]
  | cons p parameters ih =>
    cases args with
    | nil => simp [checkKinds, FitsAt]
    | cons v args =>
      rw [forall_fitsAt_cons, checkKinds]
      split
      · rename_i haccepts
        simp [ih, haccepts]
      · rename_i hwrong
        simp [hwrong]

theorem forall_fitsAt_iff :
    (∀ index, FitsAt parameters args index) ↔
      ∀ index < min args.length parameters.length, FitsAt parameters args index := by
  constructor
  · intro h index _
    exact h index
  · intro h index p v hp hv
    have hparameter := (List.getElem?_eq_some_iff.mp hp).1
    have hargument := (List.getElem?_eq_some_iff.mp hv).1
    exact h index (lt_min hargument hparameter) p v hp hv

theorem minArity_eq (s : Signature) :
    s.minArity = (s.parameters.filter fun p => !p.optional).length :=
  List.countP_eq_length_filter

theorem takesCount_iff {count : ℕ} :
    s.TakesCount count ↔ ¬(count < s.minArity ∨ s.maxArity.any (· < count)) := by
  rw [minArity_eq]
  constructor
  · rintro ⟨henough, hatMost⟩
    cases hvariadic : s.variadic with
    | false =>
      have hmost := hatMost hvariadic
      simp [maxArity, hvariadic]
      omega
    | true => simpa [maxArity, hvariadic] using henough
  · intro h
    rw [not_or] at h
    refine ⟨Nat.not_lt.mp h.1, fun hvariadic => ?_⟩
    simpa [maxArity, hvariadic] using h.2

theorem check_of_takesCount (h : s.TakesCount args.length) :
    s.check args = checkKinds s.name 0 s.parameters args :=
  if_neg (takesCount_iff.mp h)

/-- The number of arguments is looked at before the kinds. -/
theorem check_of_not_takesCount (h : ¬s.TakesCount args.length) :
    s.check args = .error (.invalidArity s.name s.minArity s.maxArity args.length) :=
  if_pos (Decidable.not_not.mp (takesCount_iff.not.mp h))

theorem check_eq_ok_iff :
    s.check args = .ok () ↔
      s.TakesCount args.length ∧ ∀ index, FitsAt s.parameters args index := by
  by_cases h : s.TakesCount args.length
  · simp [check_of_takesCount h, checkKinds_eq_ok_iff, h]
  · simp [check_of_not_takesCount h, h]

/-- There is one index where the arguments do not fit first, so that the error is for just that. -/
theorem check_eq_error_iff (h : s.TakesCount args.length) :
    s.check args = .error error ↔
      ∃ index p v, s.parameters[index]? = some p ∧ args[index]? = some v ∧
        p.kind.accepts v.kind = false ∧ (∀ before < index, FitsAt s.parameters args before) ∧
        error = .mismatch s.name index p.kind v := by
  have hsound : ∀ fault, s.check args = .error fault →
      ∃ index p v, s.parameters[index]? = some p ∧ args[index]? = some v ∧
        p.kind.accepts v.kind = false ∧ (∀ before < index, FitsAt s.parameters args before) ∧
        fault = .mismatch s.name index p.kind v := by
    intro fault hfault
    rw [check_of_takesCount h] at hfault
    obtain ⟨index, p, v, hp, hv, hwrong, hfirst, hmismatch⟩ := checkKinds_error hfault
    rw [Nat.zero_add] at hmismatch
    exact ⟨index, p, v, hp, hv, hwrong, hfirst, hmismatch⟩
  constructor
  · exact hsound error
  · rintro ⟨index, p, v, hp, hv, hwrong, hfirst, rfl⟩
    cases hcheck : s.check args with
    | ok done =>
      have hfits := (check_eq_ok_iff.mp hcheck).2 index p v hp hv
      simp [hwrong] at hfits
    | error fault =>
      obtain ⟨other, q, w, hq, hw, hwrong', hfirst', rfl⟩ := hsound fault hcheck
      have hsame : other = index := by
        rcases Nat.lt_trichotomy other index with hlt | heq | hgt
        · have hfits := hfirst other hlt q w hq hw
          simp [hwrong'] at hfits
        · exact heq
        · have hfits := hfirst' index hgt p v hp hv
          simp [hwrong] at hfits
      subst other
      rw [hp] at hq
      rw [hv] at hw
      cases hq
      cases hw
      rfl

/-- Arguments past the last parameter are not looked at. -/
theorem fitsAt_append (hcover : parameters.length ≤ args.length)
    (h : FitsAt parameters args index) : FitsAt parameters (args ++ more) index := by
  intro p v hp hv
  have hindex : index < args.length :=
    (List.getElem?_eq_some_iff.mp hp).1.trans_le hcover
  rw [List.getElem?_append_left hindex] at hv
  exact h p v hp hv

theorem check_append (hvariadic : s.variadic = true) (hcover : s.parameters.length ≤ args.length)
    (h : s.check args = .ok ()) : s.check (args ++ more) = .ok () := by
  obtain ⟨hcount, hfits⟩ := check_eq_ok_iff.mp h
  apply check_eq_ok_iff.mpr
  refine ⟨⟨?_, ?_⟩, fun index => fitsAt_append hcover (hfits index)⟩
  · rw [List.length_append]
    exact hcount.enough.trans (Nat.le_add_right _ _)
  · intro hfixed
    rw [hvariadic] at hfixed
    contradiction

/-- A call is accepted just if it has a number of arguments that the signature takes, and each of
them fits its parameter. A wrong number is the error whatever the kinds are, and else the first
argument that does not fit. What goes on behind an accepted call with all parameters of a variadic
signature changes nothing. -/
theorem check_exact (s : Signature) (args : List Value) :
    (∀ (declared : Kind) (v : Value), declared.accepts v.kind = true ↔ declared.Takes v) ∧
    (s.check args = .ok () ↔ s.TakesCount args.length ∧
      ∀ index < min args.length s.parameters.length, FitsAt s.parameters args index) ∧
    (¬s.TakesCount args.length →
      s.check args = .error (.invalidArity s.name
        (s.parameters.filter fun p => !p.optional).length
        (if s.variadic then none else some s.parameters.length) args.length)) ∧
    (s.TakesCount args.length → ∀ error, s.check args = .error error ↔
      ∃ index p v, s.parameters[index]? = some p ∧ args[index]? = some v ∧
        p.kind.accepts v.kind = false ∧ (∀ before < index, FitsAt s.parameters args before) ∧
        error = .invalidArgumentType s.name index (.kind p.kind) (.kind v.kind)) ∧
    (s.variadic = true → s.parameters.length ≤ args.length → s.check args = .ok () →
      ∀ more, s.check (args ++ more) = .ok ()) := by
  refine ⟨fun declared v => Kind.accepts_iff_takes, ?_, ?_, fun h error => check_eq_error_iff h,
    fun hvariadic hcover h more => check_append hvariadic hcover h⟩
  · rw [check_eq_ok_iff, forall_fitsAt_iff]
  · intro h
    rw [check_of_not_takesCount h, minArity_eq, maxArity]

/-- A parameter that may be left out stands before one that must be there: one argument is enough,
and it is compared with the first. -/
theorem check_exact_optional_first :
    let s : Signature := ⟨"pad", [⟨"width", .number, true⟩, .required "text" .string], .string, true⟩
    (s.TakesCount 1 ∧ s.check [.string "a"] =
      .error (.invalidArgumentType "pad" 0 (.kind .number) (.kind .string))) ∧
    (¬s.TakesCount 0 ∧ s.check [] = .error (.invalidArity "pad" 1 none 0)) ∧
    (s.variadic = true ∧ s.parameters.length ≤ 2 ∧ s.check [.long 3, .string "a"] = .ok () ∧
      s.check [.long 3, .string "a", .map .empty] = .ok ()) := by
  intro s
  obtain ⟨-, -, -, hkind, -⟩ := check_exact s [.string "a"]
  obtain ⟨-, -, hcount, -, -⟩ := check_exact s []
  obtain ⟨-, -, -, -, hmore⟩ := check_exact s [.long 3, .string "a"]
  have hone : s.TakesCount 1 := ⟨by decide, by decide⟩
  have hnone : ¬s.TakesCount 0 := fun h => absurd h.enough (by decide)
  have haccepted : s.check [.long 3, .string "a"] = .ok () := rfl
  refine ⟨⟨hone, (hkind hone _).mpr ⟨0, _, _, rfl, rfl, rfl, by simp, rfl⟩⟩,
    ⟨hnone, hcount hnone⟩, rfl, by decide, haccepted, ?_⟩
  exact hmore rfl (by decide) haccepted [.map .empty]

end Signature

end Reckoner
