import Reckoner.Proofs.ByteOrder
import Reckoner.Proofs.Precedence

namespace Reckoner

/-- A step in which a registry gets names: one with its route, or all built-ins. -/
inductive Registration
  | single (name : String) (route : Route)
  | builtins

namespace Registration

/-- The names that a step registers. -/
def names : Registration → List String
  | single name _ => [name]
  | builtins => Builtin.all.map Builtin.name

/-- The route that a step gives a name, if it registers the name. -/
def route? : Registration → String → Option Route
  | single name route, other => if other = name then some route else none
  | builtins, other => (Builtin.ofName? other).map .builtin

/-- The route that a name has from the last step that registered it. -/
def latest? (steps : List Registration) (name : String) : Option Route :=
  steps.reverse.findSome? fun step => step.route? name

variable {steps : List Registration} {step : Registration} {name : String} {route : Route}

theorem route?_eq_none_iff : step.route? name = none ↔ name ∉ step.names := by
  cases step with
  | single => simp [route?, names]
  | builtins =>
    simp only [route?, names, Option.map_eq_none_iff, Builtin.ofName?_eq_none_iff, List.mem_map,
      not_exists, not_and]
    constructor
    · intro h b _ hname
      exact h b hname.symm
    · intro h b hname
      exact h b b.mem_all hname.symm

theorem latest?_append :
    latest? (steps ++ [step]) name = (step.route? name).or (latest? steps name) := by
  rw [latest?, List.reverse_append, List.reverse_singleton, List.singleton_append,
    List.findSome?_cons]
  cases step.route? name with
  | none => rfl
  | some route => rfl

theorem latest?_eq_none_iff : latest? steps name = none ↔ name ∉ steps.flatMap names := by
  simp [latest?, route?_eq_none_iff]

theorem isSome_latest?_iff : (latest? steps name).isSome ↔ name ∈ steps.flatMap names := by
  rw [Option.isSome_iff_ne_none, ne_eq, latest?_eq_none_iff, not_not]

theorem latest?_eq_some_iff :
    latest? steps name = some route ↔
      ∃ before step rest, steps = before ++ step :: rest ∧ step.route? name = some route ∧
        ∀ later ∈ rest, name ∉ later.names := by
  simp only [latest?, List.findSome?_eq_some_iff, route?_eq_none_iff]
  constructor
  · rintro ⟨rest, step, before, hsteps, hroute, hrest⟩
    refine ⟨before.reverse, step, rest.reverse, ?_, hroute, by simpa using hrest⟩
    have hreverse := congrArg List.reverse hsteps
    simpa using hreverse
  · rintro ⟨before, step, rest, rfl, hroute, hrest⟩
    exact ⟨rest.reverse, step, before.reverse, by simp, hroute, by simpa using hrest⟩

end Registration

namespace Registry

open Registration

variable {r : Registry} {group : String} {steps : List Registration}

/-- The registry after a step. -/
def step (r : Registry) : Registration → Registry
  | .single name route => (r.register name route).2
  | .builtins => (r.registerBuiltins Builtin.all).1

def after (r : Registry) (steps : List Registration) : Registry :=
  steps.foldl step r

theorem group_registerBuiltins (builtins : List Builtin) :
    (r.registerBuiltins builtins).1.group = r.group := by
  induction builtins generalizing r with
  | nil => rfl
  | cons b rest ih =>
    rw [registerBuiltins]
    exact ih

/-- What a registry shows of the steps that it comes from. -/
structure Follows (group : String) (steps : List Registration) (r : Registry) : Prop where
  group : r.group = group
  resolve : ∀ name, r.resolve name = latest? steps name

theorem follows_empty (group : String) : Follows group [] (empty group) :=
  ⟨rfl, fun _ => rfl⟩

theorem Follows.single (h : Follows group steps r) (name : String) (route : Route) :
    Follows group (steps ++ [.single name route]) (r.register name route).2 := by
  refine ⟨h.group, ?_⟩
  intro other
  rw [resolve_register, latest?_append, route?, h.resolve]
  split
  · rfl
  · rfl

theorem Follows.builtins (h : Follows group steps r) :
    Follows group (steps ++ [.builtins]) (r.registerBuiltins Builtin.all).1 := by
  refine ⟨(group_registerBuiltins _).trans h.group, ?_⟩
  intro name
  rw [resolve_registerBuiltins, latest?_append, route?, h.resolve]
  cases Builtin.ofName? name with
  | none => rfl
  | some b => rfl

theorem Follows.step (h : Follows group steps r) (step : Registration) :
    Follows group (steps ++ [step]) (r.step step) := by
  cases step with
  | single name route => exact h.single name route
  | builtins => exact h.builtins

theorem Follows.after {before : List Registration} (h : Follows group before r)
    (steps : List Registration) : Follows group (before ++ steps) (r.after steps) := by
  induction steps generalizing before r with
  | nil =>
    rw [List.append_nil]
    exact h
  | cons step rest ih =>
    have hrest := ih (h.step step)
    rw [List.append_assoc] at hrest
    exact hrest

theorem Follows.mem_names_iff (h : Follows group steps r) {name : String} :
    name ∈ r.names ↔ name ∈ steps.flatMap Registration.names := by
  rw [Registry.mem_names_iff, h.resolve, isSome_latest?_iff]

theorem Follows.size (h : Follows group steps r) :
    r.size = (steps.flatMap Registration.names).toFinset.card := by
  rw [size_eq_card]
  apply congrArg Finset.card
  ext name
  simp only [List.mem_toFinset, h.mem_names_iff]

theorem Follows.isEmpty_iff (h : Follows group steps r) :
    r.isEmpty = true ↔ steps.flatMap Registration.names = [] := by
  rw [isEmpty, List.isEmpty_iff, List.eq_nil_iff_forall_not_mem, List.eq_nil_iff_forall_not_mem]
  refine forall_congr' fun name => not_congr ?_
  rw [← h.mem_names_iff, names, List.mem_mergeSort]

/-- Each built-in that takes its name from an expression is recorded once. -/
theorem exists_taken (r : Registry) :
    ∃ taken : List String, (r.registerBuiltins Builtin.all).2 = taken.map .expressionTaken ∧
      taken.Nodup ∧ ∀ name, name ∈ taken ↔
        name ∈ Builtin.all.map Builtin.name ∧ r.resolve name = some .expression := by
  refine ⟨(Builtin.all.map Builtin.name).filter fun name => r.resolve name = some .expression,
    ?_, ?_, ?_⟩
  · rw [log_registerBuiltins Builtin.all_nodup, List.filter_map, List.map_map]
    rfl
  · apply List.Nodup.filter
    exact Builtin.all_nodup.map fun b c => Builtin.name_injective
  · intro name
    simp

/-- Whatever steps a registry comes from, in any order and with any names, each name has its route
from the last step that registered it. What the registry shows of its names is what the steps
registered, in the order of their bytes and each once. A registration gives back the route that the
name had, and the built-ins are recorded that take their names from an expression. -/
theorem last_registration_wins (group : String) (steps : List Registration) :
    let r := (empty group).after steps
    let registered := steps.flatMap Registration.names
    (∀ name,
      (∀ route, r.resolve name = some route ↔
        ∃ before step rest, steps = before ++ step :: rest ∧ step.route? name = some route ∧
          ∀ later ∈ rest, name ∉ later.names) ∧
      (r.resolve name = none ↔ name ∉ registered) ∧
      (r.contains name = true ↔ (r.resolve name).isSome) ∧
      (name ∈ r.names ↔ name ∈ registered)) ∧
    r.names.Pairwise (fun a b => Text.bytes a < Text.bytes b) ∧
    r.size = registered.toFinset.card ∧
    (r.isEmpty = true ↔ registered = []) ∧
    r.group = group ∧
    (∀ name route, r.register name route =
      (r.resolve name, (empty group).after (steps ++ [.single name route]))) ∧
    (r.registerBuiltins Builtin.all).1 = (empty group).after (steps ++ [.builtins]) ∧
    ∃ taken : List String, (r.registerBuiltins Builtin.all).2 = taken.map .expressionTaken ∧
      taken.Nodup ∧ ∀ name, name ∈ taken ↔
        name ∈ Builtin.all.map Builtin.name ∧ r.resolve name = some .expression := by
  intro r registered
  have hfollows : Follows group steps r := (follows_empty group).after steps
  have hafter (step : Registration) : (empty group).after (steps ++ [step]) = r.step step := by
    simp [r, after]
  refine ⟨fun name => ⟨fun route => ?_, ?_, Iff.rfl, hfollows.mem_names_iff⟩, ?_, hfollows.size,
    hfollows.isEmpty_iff, hfollows.group, fun name route => ?_, ?_, exists_taken r⟩
  · rw [hfollows.resolve, latest?_eq_some_iff]
  · rw [hfollows.resolve, latest?_eq_none_iff]
  · exact r.routes.ascending_mergeSort.imp Text.bytes_lt
  · rw [hafter]
    rfl
  · exact (hafter .builtins).symm

end Registry

end Reckoner
