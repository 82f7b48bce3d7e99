import Mathlib.Data.Finset.Card
import Mathlib.Data.List.Nodup
import Reckoner.Proofs.BuiltinRoutes

namespace Reckoner

namespace Builtin

theorem ofName?_eq_some_iff {name : String} {b : Builtin} :
    ofName? name = some b ↔ name = b.name := by
  constructor
  · intro h
    have hname := List.find?_some h
    exact (beq_iff_eq.mp hname).symm
  · rintro rfl
    exact b.ofName?_name

theorem ofName?_eq_none_iff {name : String} :
    ofName? name = none ↔ ∀ b : Builtin, name ≠ b.name := by
  rw [Option.eq_none_iff_forall_ne_some]
  exact forall_congr' fun b => not_congr ofName?_eq_some_iff

theorem all_nodup : all.Nodup := by
  decide

end Builtin

namespace Registry

theorem mem_names_iff {r : Registry} {name : String} :
    name ∈ r.names ↔ (r.resolve name).isSome :=
  List.mem_mergeSort.trans Named.mem_names_iff

/-- Each name is counted once. -/
theorem size_eq_card (r : Registry) : r.size = r.names.toFinset.card := by
  have hdistinct : r.names.Nodup := r.routes.sorted.distinct
  rw [List.toFinset_card_of_nodup hdistinct, names, List.length_mergeSort, size]

/-- Names that are registered as operations resolve to them, all others as before. -/
theorem resolve_registerOperations (operations : List String) (r : Registry) (name : String) :
    (operations.foldl (fun r name => (r.register name .operation).2) r).resolve name =
      if name ∈ operations then some .operation else r.resolve name := by
  induction operations generalizing r with
  | nil => rfl
  | cons first rest ih =>
    rw [List.foldl_cons, ih, resolve_register]
    by_cases hrest : name ∈ rest
    · simp [hrest]
    · by_cases hfirst : name = first
      · simp [hfirst]
      · simp [hrest, hfirst]

theorem resolve_registerBuiltins (r : Registry) (name : String) :
    (r.registerBuiltins Builtin.all).1.resolve name =
      match Builtin.ofName? name with
      | some b => some (.builtin b)
      | none => r.resolve name := by
  cases h : Builtin.ofName? name with
  | some b =>
    rw [Builtin.ofName?_eq_some_iff.mp h]
    exact resolve_registerBuiltins_of_mem b.mem_all r
  | none =>
    have hnames := Builtin.ofName?_eq_none_iff.mp h
    exact resolve_registerBuiltins_of_not_mem (fun b _ => (hnames b).symm) r

/-- A record is made for each built-in that takes its name from an expression. What was registered
before it has another name. -/
theorem log_registerBuiltins {builtins : List Builtin} (h : builtins.Nodup) (r : Registry) :
    (r.registerBuiltins builtins).2 =
      (builtins.filter fun b => r.resolve b.name = some .expression).map
        fun b => .expressionTaken b.name := by
  induction builtins generalizing r with
  | nil => rfl
  | cons b rest ih =>
    obtain ⟨hb, hrest⟩ := List.nodup_cons.mp h
    have hsame : ∀ c ∈ rest,
        (r.register b.name (.builtin b)).2.resolve c.name = r.resolve c.name := by
      intro c hc
      have hname : c.name ≠ b.name := by
        intro hname
        obtain rfl := Builtin.name_injective hname
        exact hb hc
      rw [resolve_register, if_neg hname]
    rw [registerBuiltins]
    dsimp only
    rw [ih hrest, List.filter_congr fun c hc => by rw [hsame c hc], List.filter_cons]
    have hreplaced : (r.register b.name (.builtin b)).1 = r.resolve b.name := rfl
    rw [hreplaced]
    by_cases hexpression : r.resolve b.name = some .expression
    · simp [hexpression]
    · simp [hexpression]

/-- What the built-ins are registered over: the operations, and the expression over them. -/
def claimed (group : String) (operations : List String) (expression : String) : Registry :=
  let base := operations.foldl (fun r name => (r.register name .operation).2) (empty group)
  (base.register expression .expression).2

variable {group expression name : String} {operations : List String}

theorem resolve_claimed :
    (claimed group operations expression).resolve name =
      if name = expression then some .expression
      else if name ∈ operations then some .operation else none := by
  rw [claimed, resolve_register, resolve_registerOperations]
  rfl

/-- Built-ins go before the expression, which goes before operations. -/
theorem resolve_build :
    (build group operations expression).1.resolve name =
      match Builtin.ofName? name with
      | some b => some (.builtin b)
      | none =>
        if name = expression then some .expression
        else if name ∈ operations then some .operation else none := by
  rw [← resolve_claimed]
  exact resolve_registerBuiltins _ name

theorem resolve_build_eq_builtin_iff {b : Builtin} :
    (build group operations expression).1.resolve name = some (.builtin b) ↔ name = b.name := by
  rw [resolve_build, ← Builtin.ofName?_eq_some_iff]
  cases Builtin.ofName? name with
  | some c => simp
  | none =>
    refine iff_of_false ?_ (by simp)
    dsimp only
    split_ifs <;> simp

/-- Only a name that no built-in has goes any further. -/
theorem resolve_build_of_not_builtin {route : Option Route} (h : ∀ b, route ≠ some (.builtin b)) :
    (build group operations expression).1.resolve name = route ↔
      (∀ b : Builtin, name ≠ b.name) ∧
        (if name = expression then some .expression
          else if name ∈ operations then some .operation else none) = route := by
  rw [resolve_build, ← Builtin.ofName?_eq_none_iff]
  cases Builtin.ofName? name with
  | some b => exact iff_of_false (h b).symm (by simp)
  | none => simp

theorem resolve_build_eq_expression_iff :
    (build group operations expression).1.resolve name = some .expression ↔
      (∀ b : Builtin, name ≠ b.name) ∧ name = expression := by
  rw [resolve_build_of_not_builtin (by simp)]
  by_cases hexpression : name = expression
  · simp [hexpression]
  · by_cases hmem : name ∈ operations
    · simp [hexpression, hmem]
    · simp [hexpression, hmem]

theorem resolve_build_eq_operation_iff :
    (build group operations expression).1.resolve name = some .operation ↔
      (∀ b : Builtin, name ≠ b.name) ∧ name ≠ expression ∧ name ∈ operations := by
  rw [resolve_build_of_not_builtin (by simp)]
  by_cases hexpression : name = expression
  · simp [hexpression]
  · simp [hexpression]

theorem resolve_build_eq_none_iff :
    (build group operations expression).1.resolve name = none ↔
      (∀ b : Builtin, name ≠ b.name) ∧ name ≠ expression ∧ name ∉ operations := by
  rw [resolve_build_of_not_builtin (by simp)]
  by_cases hexpression : name = expression
  · simp [hexpression]
  · simp [hexpression]

theorem log_registerBuiltins_claimed :
    ((claimed group operations expression).registerBuiltins Builtin.all).2 =
      if expression ∈ Builtin.all.map Builtin.name then [.expressionTaken expression] else [] := by
  have htaken (b : Builtin) :
      (claimed group operations expression).resolve b.name = some .expression ↔
        expression = b.name := by
    rw [resolve_claimed, eq_comm (a := expression)]
    by_cases h : b.name = expression
    · simp [h]
    · by_cases hmem : b.name ∈ operations
      · simp [h, hmem]
      · simp [h, hmem]
  rw [log_registerBuiltins Builtin.all_nodup]
  simp only [htaken]
  cases hname : Builtin.ofName? expression with
  | some b =>
    obtain rfl := Builtin.ofName?_eq_some_iff.mp hname
    have hself : (Builtin.all.filter fun c => b.name = c.name) = [b] := by
      cases b <;> rfl
    rw [hself, if_pos (List.mem_map_of_mem b.mem_all), List.map_singleton]
  | none =>
    have hnames := Builtin.ofName?_eq_none_iff.mp hname
    rw [if_neg (by simpa using fun b _ => (hnames b).symm),
      List.filter_eq_nil_iff.mpr (by simpa using fun b _ => hnames b), List.map_nil]

/-- An expression over an operation is recorded once, and so is one under a built-in. -/
theorem log_build :
    (build group operations expression).2 =
      (if expression ∈ operations then [.expressionShadows expression] else []) ++
      (if expression ∈ Builtin.all.map Builtin.name then [.expressionTaken expression] else []) ++
      [.builtRegistry group (build group operations expression).1.size] := by
  have hshadows :
      (operations.foldl (fun r name => (r.register name .operation).2) (empty group)).resolve
        expression = some .operation ↔ expression ∈ operations := by
    rw [resolve_registerOperations]
    by_cases h : expression ∈ operations
    · simp [h]
    · simp [h, resolve, empty, Named.empty, Named.lookup]
  rw [← @log_registerBuiltins_claimed group expression operations]
  simp only [← hshadows]
  rfl

/-- Each name counts once, however many parts bring it. -/
theorem size_build :
    (build group operations expression).1.size =
      (operations.toFinset ∪ {expression} ∪ (Builtin.all.map Builtin.name).toFinset).card := by
  rw [size_eq_card]
  refine congrArg Finset.card ?_
  ext name
  rw [List.mem_toFinset, mem_names_iff, resolve_build]
  cases hname : Builtin.ofName? name with
  | some b =>
    obtain rfl := Builtin.ofName?_eq_some_iff.mp hname
    simp [Builtin.mem_all]
  | none =>
    have hnames : ∀ b ∈ Builtin.all, b.name ≠ name := fun b _ =>
      (Builtin.ofName?_eq_none_iff.mp hname b).symm
    by_cases hexpression : name = expression
    · simp [hexpression]
    · by_cases hmem : name ∈ operations
      · simp [hexpression, hmem]
      · simpa [hexpression, hmem] using hnames

end Registry

namespace Evaluator

variable {e : Evaluator} {name : String}

/-- A built-in runs on arguments that its signature accepts. -/
theorem evaluateBuiltin_eq (e : Evaluator) (b : Builtin) (args : List Value) (locale : Locale) :
    e.evaluateBuiltin b args locale =
      match b.signature.check args with
      | .ok () => b.run e.config.product locale args
      | .error error => .error error := by
  rw [evaluateBuiltin]
  cases b.signature.check args with
  | ok done => rfl
  | error error => rfl

theorem evaluate_expression (hempty : name ≠ "") (hbuiltin : ∀ b : Builtin, name ≠ b.name)
    (hname : name = e.config.expression) (args : List Value) (locale : Locale) :
    (e.evaluate name args locale).result = e.evaluateExpression name args := by
  have hroute : e.registry.resolve name = some .expression :=
    Registry.resolve_build_eq_expression_iff.mpr ⟨hbuiltin, hname⟩
  rw [evaluate, if_neg hempty, hroute]

/-- A name that is neither of a built-in nor of the expression goes to the operations, also if they
do not have it. -/
theorem evaluate_operation (hempty : name ≠ "") (hbuiltin : ∀ b : Builtin, name ≠ b.name)
    (hname : name ≠ e.config.expression) (args : List Value) (locale : Locale) :
    (e.evaluate name args locale).result = (e.operations.invoke name args).result := by
  rw [evaluate, if_neg hempty]
  by_cases hmem : name ∈ e.operations.names
  · have hroute : e.registry.resolve name = some .operation :=
      Registry.resolve_build_eq_operation_iff.mpr ⟨hbuiltin, hname, hmem⟩
    rw [hroute]
  · have hroute : e.registry.resolve name = none :=
      Registry.resolve_build_eq_none_iff.mpr ⟨hbuiltin, hname, hmem⟩
    rw [hroute]

end Evaluator

/-- Built-ins go before the expression and the expression before operations, whatever names they
have: in the registry, in what is recorded while it is built, and in the evaluation of calls. -/
theorem precedence_respected (e : Evaluator) (name : String) (args : List Value)
    (locale : Locale) :
    let operations := e.operations.names
    let expression := e.config.expression
    let built := Registry.build e.config.group operations expression
    let result := (e.evaluate name args locale).result
    (∀ b, built.1.resolve name = some (.builtin b) ↔ name = b.name) ∧
    (built.1.resolve name = some .expression ↔
      (∀ b : Builtin, name ≠ b.name) ∧ name = expression) ∧
    (built.1.resolve name = some .operation ↔
      (∀ b : Builtin, name ≠ b.name) ∧ name ≠ expression ∧ name ∈ operations) ∧
    (built.1.resolve name = none ↔
      (∀ b : Builtin, name ≠ b.name) ∧ name ≠ expression ∧ name ∉ operations) ∧
    built.1.size =
      (operations.toFinset ∪ {expression} ∪ (Builtin.all.map Builtin.name).toFinset).card ∧
    built.2 =
      (if expression ∈ operations then [.expressionShadows expression] else []) ++
      (if expression ∈ Builtin.all.map Builtin.name then [.expressionTaken expression] else []) ++
      [.builtRegistry e.config.group built.1.size] ∧
    (name ≠ "" →
      (∀ b : Builtin, name = b.name →
        result = match b.signature.check args with
          | .ok () => b.run e.config.product locale args
          | .error error => .error error) ∧
      ((∀ b : Builtin, name ≠ b.name) → name = expression →
        result = match e.expression with
          | some evaluate => evaluate args
          | none => .error (.evaluation name .noExpressionEvaluator)) ∧
      ((∀ b : Builtin, name ≠ b.name) → name ≠ expression →
        result = (e.operations.invoke name args).result)) := by
  intro operations expression built result
  refine ⟨fun b => Registry.resolve_build_eq_builtin_iff, Registry.resolve_build_eq_expression_iff,
    Registry.resolve_build_eq_operation_iff, Registry.resolve_build_eq_none_iff,
    Registry.size_build, Registry.log_build, fun hempty => ⟨?_, ?_, ?_⟩⟩
  · rintro b rfl
    rw [← e.evaluateBuiltin_eq]
    exact e.evaluate_builtin b args locale
  · intro hbuiltin hname
    exact Evaluator.evaluate_expression hempty hbuiltin hname args locale
  · intro hbuiltin hname
    exact Evaluator.evaluate_operation hempty hbuiltin hname args locale

/-- A name that all three have: the built-in gets it, and both losses are recorded. -/
theorem precedence_respected_sum :
    let e : Evaluator :=
      ⟨{ expression := "sum" }, ⟨["twice", "sum", "twice", ""], fun _ _ => ⟨[], .ok (.long 0)⟩⟩, none⟩
    "sum" ≠ "" ∧ "sum" = Builtin.sum.name ∧
    e.build.1.resolve "sum" = some (.builtin .sum) ∧ e.build.1.size = 15 ∧
    e.build.2 = [.expressionShadows "sum", .expressionTaken "sum", .builtRegistry "math" 15] ∧
    (e.evaluate "sum" [] .enUS).result = .error (.invalidArity "sum" 1 none 0) := by
  intro e
  obtain ⟨hbuiltin, -, -, -, hsize, hlog, hcall⟩ := precedence_respected e "sum" [] .enUS
  have hcount : e.build.1.size = 15 := hsize.trans (by decide)
  refine ⟨by decide, rfl, (hbuiltin .sum).mpr rfl, hcount, ?_, ?_⟩
  · exact hlog.trans (by rw [← hcount]; rfl)
  · exact ((hcall (by decide)).1 .sum rfl).trans (by rfl)

end Reckoner
