import Reckoner.Proofs.Accumulation

namespace Reckoner

namespace Value

mutual

/-- Collections are taken apart at any depth. -/
theorem kind_of_mem_leaves {leaf : Value} :
    ∀ v : Value, leaf ∈ v.leaves → leaf.kind ≠ .collection
  | .collection items => kind_of_mem_leavesOf items
  | .byte _ | .short _ | .integer _ | .long _ | .float _ | .double _ | .decimal _ | .string _
  | .map _ => by
    intro h
    rw [List.mem_singleton.mp h]
    simp [kind]

theorem kind_of_mem_leavesOf {leaf : Value} :
    ∀ items : List Value, leaf ∈ leaves.leavesOf items → leaf.kind ≠ .collection
  | [] => by simp [leaves.leavesOf]
  | item :: rest => by
    intro h
    rcases List.mem_append.mp h with hitem | hrest
    · exact kind_of_mem_leaves item hitem
    · exact kind_of_mem_leavesOf rest hrest

end

end Value

namespace Combiner

instance (combiner : Combiner) (leaf : Value) : Decidable (combiner.Accepts leaf) :=
  inferInstanceAs (Decidable (_ ∧ _ ∧ (_ → _)))

/-- The error for a leaf of the argument at `index` that cannot be folded. -/
inductive Refuses (combiner : Combiner) (name : String) (index : ℕ) : Value → EvalError → Prop
  | string (text : String) : Refuses combiner name index (.string text)
      (.invalidArgumentType name index (.kind .number) (.kind .string))
  | map (entries : Named Value) : Refuses combiner name index (.map entries)
      (.invalidArgumentType name index (.kind .number) (.kind .map))
  | float {x : Single} (infinite : x.isFinite = false) : Refuses combiner name index (.float x)
      (.evaluation name (.notDecimal x.plain))
  | double {x : Double} (infinite : x.isFinite = false) : Refuses combiner name index (.double x)
      (.evaluation name (.notDecimal x.plain))
  | zero {leaf : Value} (reciprocal : combiner = .addReciprocal) (numeric : leaf.isNumeric)
      (finite : leaf.IsFinite) (zero : leaf.shown = 0) :
      Refuses combiner name index leaf (.evaluation name .divisionByZero)

variable {combiner : Combiner} {name : String} {index : ℕ} {leaf : Value} {error : EvalError}

theorem Refuses.not_accepts (h : combiner.Refuses name index leaf error) :
    ¬combiner.Accepts leaf := by
  rintro ⟨hnumeric, hfinite, hnonzero⟩
  cases h with
  | string text => simp [Value.isNumeric, Value.kind, Kind.isNumeric] at hnumeric
  | map entries => simp [Value.isNumeric, Value.kind, Kind.isNumeric] at hnumeric
  | float infinite => simp [Value.IsFinite, infinite] at hfinite
  | double infinite => simp [Value.IsFinite, infinite] at hfinite
  | zero reciprocal _ _ zero => exact hnonzero reciprocal zero

/-- What cannot be folded is a text, a map, a number that is not finite, or a zero that has no
reciprocal. -/
theorem not_accepts_iff (hleaf : leaf.kind ≠ .collection) (name : String) (index : ℕ) :
    ¬combiner.Accepts leaf ↔ ∃ error, combiner.Refuses name index leaf error := by
  constructor
  · intro h
    by_cases hnumeric : leaf.isNumeric = true
    · by_cases hfinite : leaf.IsFinite
      · have hzero : combiner = .addReciprocal ∧ leaf.shown = 0 := by
          by_contra hnot
          exact h ⟨hnumeric, hfinite, fun hc hz => hnot ⟨hc, hz⟩⟩
        exact ⟨_, .zero hzero.1 hnumeric hfinite hzero.2⟩
      · cases leaf with
        | float x => exact ⟨_, .float (Bool.eq_false_iff.mpr hfinite)⟩
        | double x => exact ⟨_, .double (Bool.eq_false_iff.mpr hfinite)⟩
        | _ => exact absurd trivial hfinite
    · cases leaf with
      | string text => exact ⟨_, .string text⟩
      | map entries => exact ⟨_, .map entries⟩
      | collection items => exact absurd rfl hleaf
      | _ => exact absurd rfl hnumeric
  · rintro ⟨error, h⟩
    exact h.not_accepts

end Combiner

namespace Accumulator

/-- A call of an accumulator: with one value, which is the argument at an index, or with all
arguments. -/
inductive Call
  | one (name : String) (index : ℕ) (v : Value)
  | all (name : String) (args : List Value)

namespace Call

def name : Call → String
  | one name _ _ => name
  | all name _ => name

/-- The leaves of a call, left to right, each with the index of the argument that holds it. -/
def leaves : Call → List (ℕ × Value)
  | one _ index v => v.leaves.map (index, ·)
  | all _ args => args.zipIdx.flatMap fun (arg, index) => arg.leaves.map (index, ·)

/-- The leaves before the first one that cannot be folded. -/
def folded (combiner : Combiner) (call : Call) : List Value :=
  (call.leaves.takeWhile fun located => combiner.Accepts located.2).map Prod.snd

theorem kind_of_mem_leaves {call : Call} {located : ℕ × Value} (h : located ∈ call.leaves) :
    located.2.kind ≠ .collection := by
  cases call with
  | one name index v =>
    obtain ⟨leaf, hleaf, rfl⟩ := List.mem_map.mp h
    exact Value.kind_of_mem_leaves v hleaf
  | all name args =>
    obtain ⟨⟨arg, index⟩, _, hmem⟩ := List.mem_flatMap.mp h
    obtain ⟨leaf, hleaf, rfl⟩ := List.mem_map.mp hmem
    exact Value.kind_of_mem_leaves arg hleaf

end Call

/-- The accumulator after a call, and how the call ended. -/
def call (acc : Accumulator) : Call → Accumulator × Except EvalError Unit
  | .one name index v => acc.accumulate name index v
  | .all name args => acc.accumulateAll name args

/-- The accumulator after calls, whether they failed or not. -/
def after (acc : Accumulator) (history : List Call) : Accumulator :=
  history.foldl (fun acc call => (acc.call call).1) acc

/-- Folds leaves, each with the index of its argument, as far as the first one that fails. -/
def addLeaves (acc : Accumulator) (name : String) :
    List (ℕ × Value) → Accumulator × Except EvalError Unit
  | [] => (acc, .ok ())
  | (index, leaf) :: rest =>
    match acc.addLeaf name index leaf with
    | .ok next => next.addLeaves name rest
    | .error error => (acc, .error error)

variable {acc : Accumulator} {name : String} {index : ℕ}

theorem addLeaves_append (acc : Accumulator) (name : String) (xs ys : List (ℕ × Value)) :
    acc.addLeaves name (xs ++ ys) =
      match acc.addLeaves name xs with
      | (next, .ok ()) => next.addLeaves name ys
      | failed => failed := by
  induction xs generalizing acc with
  | nil => rfl
  | cons located rest ih =>
    obtain ⟨index, leaf⟩ := located
    rw [List.cons_append, addLeaves, addLeaves]
    cases acc.addLeaf name index leaf with
    | ok next => exact ih next
    | error error => rfl

theorem addLeaves_singleton (acc : Accumulator) (name : String) (index : ℕ) (leaf : Value) :
    acc.addLeaves name [(index, leaf)] =
      match acc.addLeaf name index leaf with
      | .ok next => (next, .ok ())
      | .error error => (acc, .error error) := by
  rw [addLeaves]
  cases acc.addLeaf name index leaf with
  | ok next => rfl
  | error error => rfl

mutual

/-- A nested value is folded leaf by leaf. -/
theorem accumulate_eq_addLeaves (acc : Accumulator) (name : String) (index : ℕ) :
    ∀ v : Value, acc.accumulate name index v = acc.addLeaves name (v.leaves.map (index, ·))
  | .collection items => by
    rw [accumulate]
    exact accumulateItems_eq_addLeaves acc name index items
  | .string text => (addLeaves_singleton acc name index (.string text)).symm
  | .map entries => (addLeaves_singleton acc name index (.map entries)).symm
  | .byte _ | .short _ | .integer _ | .long _ | .float _ | .double _ | .decimal _ =>
    (addLeaves_singleton acc name index _).symm

theorem accumulateItems_eq_addLeaves (acc : Accumulator) (name : String) (index : ℕ) :
    ∀ items : List Value, accumulate.accumulateItems name index acc items =
      acc.addLeaves name ((Value.leaves.leavesOf items).map (index, ·))
  | [] => rfl
  | item :: rest => by
    rw [Value.leaves.leavesOf, List.map_append, addLeaves_append, accumulate.accumulateItems,
      accumulate_eq_addLeaves acc name index item]
    rcases acc.addLeaves name (item.leaves.map (index, ·)) with ⟨next, error | done⟩
    · rfl
    · exact accumulateItems_eq_addLeaves next name index rest

end

theorem accumulateFrom_eq_addLeaves (acc : Accumulator) (name : String) (index : ℕ)
    (args : List Value) :
    acc.accumulateFrom name index args = acc.addLeaves name
      ((args.zipIdx index).flatMap fun (arg, index) => arg.leaves.map (index, ·)) := by
  induction args generalizing acc index with
  | nil => rfl
  | cons arg rest ih =>
    rw [List.zipIdx_cons, List.flatMap_cons, addLeaves_append, accumulateFrom,
      accumulate_eq_addLeaves]
    rcases acc.addLeaves name (arg.leaves.map (index, ·)) with ⟨next, error | done⟩
    · rfl
    · exact ih next (index + 1)

theorem call_eq_addLeaves (acc : Accumulator) (call : Call) :
    acc.call call = acc.addLeaves call.name call.leaves := by
  cases call with
  | one name index v => exact accumulate_eq_addLeaves acc name index v
  | all name args => exact accumulateFrom_eq_addLeaves acc name 0 args

/-- An accumulator that has folded leaves one after the other from its start. -/
structure Follows (initial : Exact) (combiner : Combiner) (folded : List Value)
    (acc : Accumulator) : Prop where
  same : acc.combiner = combiner
  count : acc.count = folded.length
  total : acc.total.value = folded.foldl combiner.step initial.value

theorem follows_start (initial : Exact) (combiner : Combiner) :
    (start initial combiner).Follows initial combiner [] :=
  ⟨rfl, rfl, rfl⟩

/-- A leaf that cannot be folded is reported with what is wrong with it. -/
theorem addLeaf_of_refuses {leaf : Value} {error : EvalError}
    (h : acc.combiner.Refuses name index leaf error) :
    acc.addLeaf name index leaf = .error error := by
  cases h with
  | string text => rfl
  | map entries => rfl
  | float infinite =>
    rename_i x
    cases x with
    | finite negative rank => simp [Binary.isFinite] at infinite
    | _ => rfl
  | double infinite =>
    rename_i x
    cases x with
    | finite negative rank => simp [Binary.isFinite] at infinite
    | _ => rfl
  | zero reciprocal numeric finite zero =>
    obtain ⟨x, hexact, hx⟩ := Value.exists_toExact? numeric finite
    have hzero : x.isZero = true := by
      rw [Exact.isZero_iff, hx, zero]
    rw [addLeaf, if_pos numeric, hexact]
    simp only [reciprocal, Combiner.combine?, hzero, if_true]

variable {initial : Exact} {combiner : Combiner} {done : List Value}

theorem Follows.addLeaf {leaf : Value} (h : acc.Follows initial combiner done)
    (hleaf : combiner.Accepts leaf) (name : String) (index : ℕ) :
    ∃ next, acc.addLeaf name index leaf = .ok next ∧
      next.Follows initial combiner (done ++ [leaf]) := by
  obtain ⟨rfl, hcount, htotal⟩ := h
  obtain ⟨total, hadd, hvalue⟩ := addLeaf_of_accepts hleaf name index
  refine ⟨_, hadd, rfl, ?_, ?_⟩
  · rw [hcount, List.length_append, List.length_singleton]
  · rw [List.foldl_append, ← htotal]
    exact hvalue

/-- Leaves go in as far as the first one that cannot be folded. -/
theorem Follows.addLeaves {leaves : List (ℕ × Value)} (h : acc.Follows initial combiner done)
    (name : String) :
    (acc.addLeaves name leaves).1.Follows initial combiner
      (done ++ (leaves.takeWhile fun located => combiner.Accepts located.2).map Prod.snd) := by
  induction leaves generalizing acc done with
  | nil => simpa [Accumulator.addLeaves] using h
  | cons located rest ih =>
    obtain ⟨index, leaf⟩ := located
    rw [Accumulator.addLeaves]
    by_cases hleaf : combiner.Accepts leaf
    · obtain ⟨next, hadd, hnext⟩ := h.addLeaf hleaf name index
      rw [hadd, List.takeWhile_cons_of_pos (by simpa using hleaf), List.map_cons,
        List.append_cons]
      exact ih hnext
    · obtain ⟨error, hadd⟩ := addLeaf_of_not_accepts (h.same ▸ hleaf) name index
      rw [hadd, List.takeWhile_cons_of_neg (by simpa using hleaf), List.map_nil,
        List.append_nil]
      exact h

theorem Follows.call (h : acc.Follows initial combiner done) (call : Call) :
    (acc.call call).1.Follows initial combiner (done ++ call.folded combiner) := by
  rw [call_eq_addLeaves]
  exact h.addLeaves call.name

/-- Failed calls leave an accumulator in step with what was folded. -/
theorem Follows.after (h : acc.Follows initial combiner done) (history : List Call) :
    (acc.after history).Follows initial combiner
      (done ++ history.flatMap (Call.folded combiner)) := by
  induction history generalizing acc done with
  | nil => simpa [Accumulator.after] using h
  | cons call rest ih =>
    rw [List.flatMap_cons, ← List.append_assoc]
    exact ih (h.call call)

theorem addLeaves_ok_iff {leaves : List (ℕ × Value)} :
    (acc.addLeaves name leaves).2 = .ok () ↔
      ∀ located ∈ leaves, acc.combiner.Accepts located.2 := by
  induction leaves generalizing acc with
  | nil => simp [addLeaves]
  | cons located rest ih =>
    obtain ⟨index, leaf⟩ := located
    rw [addLeaves, List.forall_mem_cons]
    by_cases hleaf : acc.combiner.Accepts leaf
    · obtain ⟨total, hadd, -⟩ := addLeaf_of_accepts hleaf name index
      rw [hadd]
      exact ih.trans (and_iff_right hleaf).symm
    · obtain ⟨error, hadd⟩ := addLeaf_of_not_accepts hleaf name index
      rw [hadd]
      exact iff_of_false (by simp) (fun h => hleaf h.1)

/-- The first leaf that cannot be folded is the one that is reported. -/
theorem addLeaves_error {before rest : List (ℕ × Value)} {leaf : Value} {error : EvalError}
    (hbefore : ∀ located ∈ before, acc.combiner.Accepts located.2)
    (h : acc.combiner.Refuses name index leaf error) :
    (acc.addLeaves name (before ++ (index, leaf) :: rest)).2 = .error error := by
  induction before generalizing acc with
  | nil => rw [List.nil_append, addLeaves, addLeaf_of_refuses h]
  | cons located before ih =>
    obtain ⟨place, first⟩ := located
    obtain ⟨total, hadd, -⟩ := addLeaf_of_accepts (hbefore _ List.mem_cons_self) name place
    rw [List.cons_append, addLeaves, hadd]
    exact ih (fun other hother => hbefore other (List.mem_cons_of_mem _ hother)) h

theorem exists_first_refused {leaves : List (ℕ × Value)}
    (hleaves : ∀ located ∈ leaves, located.2.kind ≠ .collection)
    (h : ¬∀ located ∈ leaves, combiner.Accepts located.2) (name : String) :
    ∃ before index leaf rest error, leaves = before ++ (index, leaf) :: rest ∧
      (∀ located ∈ before, combiner.Accepts located.2) ∧
      combiner.Refuses name index leaf error := by
  induction leaves with
  | nil => simp at h
  | cons located others ih =>
    rw [List.forall_mem_cons] at h hleaves
    by_cases hfirst : combiner.Accepts located.2
    · obtain ⟨before, index, leaf, rest, error, rfl, hbefore, hrefuses⟩ :=
        ih hleaves.2 (fun hall => h ⟨hfirst, hall⟩)
      refine ⟨located :: before, index, leaf, rest, error, rfl, ?_, hrefuses⟩
      rw [List.forall_mem_cons]
      exact ⟨hfirst, hbefore⟩
    · obtain ⟨error, hrefuses⟩ :=
        (Combiner.not_accepts_iff hleaves.1 name located.1).mp hfirst
      exact ⟨[], located.1, located.2, others, error, rfl, by simp, hrefuses⟩

/-- A call fails with the error of its first leaf that cannot be folded. -/
theorem call_error_iff {call : Call} {error : EvalError} :
    (acc.call call).2 = .error error ↔
      ∃ before index leaf rest, call.leaves = before ++ (index, leaf) :: rest ∧
        (∀ located ∈ before, acc.combiner.Accepts located.2) ∧
        acc.combiner.Refuses call.name index leaf error := by
  rw [call_eq_addLeaves]
  constructor
  · intro h
    have hsome : ¬∀ located ∈ call.leaves, acc.combiner.Accepts located.2 := by
      intro hall
      rw [addLeaves_ok_iff.mpr hall] at h
      simp at h
    obtain ⟨before, index, leaf, rest, reported, hleaves, hbefore, hrefuses⟩ :=
      exists_first_refused (fun _ => call.kind_of_mem_leaves) hsome call.name
    rw [hleaves, addLeaves_error hbefore hrefuses] at h
    obtain rfl := Except.error.inj h
    exact ⟨before, index, leaf, rest, hleaves, hbefore, hrefuses⟩
  · rintro ⟨before, index, leaf, rest, hleaves, hbefore, hrefuses⟩
    rw [hleaves]
    exact addLeaves_error hbefore hrefuses

/-- After any calls, failed ones among them, an accumulator holds what was folded: count and total
are those of the leaves that each call took before its first bad one. A call fails just if it has a
bad leaf, with the error of the first. -/
theorem follows_history (initial : Exact) (combiner : Combiner) (history : List Call) :
    let acc := (start initial combiner).after history
    let folded := history.flatMap (Call.folded combiner)
    acc.count = folded.length ∧
      acc.total.value = folded.foldl combiner.step initial.value ∧
      acc.total.value = combiner.combined initial.value folded ∧
      ∀ call : Call,
        ((acc.call call).2 = .ok () ↔ ∀ located ∈ call.leaves, combiner.Accepts located.2) ∧
        ∀ error, (acc.call call).2 = .error error ↔
          ∃ before index leaf rest, call.leaves = before ++ (index, leaf) :: rest ∧
            (∀ located ∈ before, combiner.Accepts located.2) ∧
            combiner.Refuses call.name index leaf error := by
  have hfollows := (follows_start initial combiner).after history
  rw [List.nil_append] at hfollows
  refine ⟨hfollows.count, hfollows.total, hfollows.total.trans (combiner.foldl_step _ _),
    fun call => ⟨?_, fun error => ?_⟩⟩
  · rw [call_eq_addLeaves, addLeaves_ok_iff, hfollows.same]
  · rw [call_error_iff, hfollows.same]

/-- Two calls that fail half-way, on a text and on a map, and one that does not. -/
theorem follows_history_failures :
    let first : Call := .all "sum" [.integer 1, .collection [.string "x", .integer 7]]
    let second : Call :=
      .one "sum" 4 (.collection [.decimal ⟨50, 2, by decide, by decide⟩, .map .empty])
    let acc := (start .zero .add).after [first, second, .all "sum" [.byte 2]]
    acc.count = 3 ∧ acc.total.value = 7 / 2 ∧
      ((start .zero .add).call first).2 =
        .error (.invalidArgumentType "sum" 1 (.kind .number) (.kind .string)) ∧
      (((start .zero .add).after [first]).call second).2 =
        .error (.invalidArgumentType "sum" 4 (.kind .number) (.kind .map)) ∧
      ((start .zero .addReciprocal).call (.all "mean" [.integer 5, .long 0])).2 =
        .error (.evaluation "mean" .divisionByZero) := by
  intro first second acc
  have hfolded : [first, second, .all "sum" [.byte 2]].flatMap (Call.folded .add) =
      [.integer 1, .decimal ⟨50, 2, by decide, by decide⟩, .byte 2] := rfl
  obtain ⟨hcount, -, htotal, -⟩ := follows_history .zero .add [first, second, .all "sum" [.byte 2]]
  obtain ⟨-, -, -, hfirst⟩ := follows_history .zero .add []
  obtain ⟨-, -, -, hsecond⟩ := follows_history .zero .add [first]
  obtain ⟨-, -, -, hzero⟩ := follows_history .zero .addReciprocal []
  have hbefore {combiner : Combiner} {located : ℕ × Value} (h : combiner.Accepts located.2) :
      ∀ other ∈ [located], combiner.Accepts other.2 :=
    List.forall_mem_singleton.mpr h
  rw [hfolded] at hcount htotal
  refine ⟨hcount, htotal.trans ?_, ?_, ?_, ?_⟩
  · norm_num [Combiner.combined, Value.shown, Value.number?, Decimal.value,
      show (1 : Int32).toInt = 1 from rfl, show (2 : Int8).toInt = 2 from rfl]
  · exact ((hfirst first).2 _).mpr
      ⟨_, 1, .string "x", [(1, .integer 7)], rfl, hbefore (by decide), .string "x"⟩
  · exact ((hsecond second).2 _).mpr ⟨_, 4, .map .empty, [], rfl, hbefore (by decide), .map .empty⟩
  · exact ((hzero (.all "mean" [.integer 5, .long 0])).2 _).mpr
      ⟨_, 1, .long 0, [], rfl, hbefore (by decide), .zero rfl rfl trivial rfl⟩

end Accumulator

end Reckoner
