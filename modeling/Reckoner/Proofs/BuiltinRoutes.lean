import Reckoner.Evaluation.Evaluator
import Reckoner.Proofs.NamedThings

namespace Reckoner

namespace Builtin

theorem mem_all (b : Builtin) : b ∈ all := by
  cases b <;> decide

theorem ofName?_name (b : Builtin) : ofName? b.name = some b := by
  cases b <;> rfl

theorem name_injective {b c : Builtin} (h : b.name = c.name) : b = c := by
  have hsame := b.ofName?_name
  rw [h, c.ofName?_name, Option.some.injEq] at hsame
  exact hsame.symm

theorem name_ne_empty (b : Builtin) : b.name ≠ "" := by
  cases b <;> decide

end Builtin

namespace Registry

theorem resolve_register (r : Registry) (name other : String) (route : Route) :
    (r.register name route).2.resolve other =
      if other = name then some route else r.resolve other :=
  Named.lookup_insert r.routes name other route

theorem resolve_registerBuiltins_of_not_mem {builtins : List Builtin} {name : String}
    (h : ∀ b ∈ builtins, b.name ≠ name) (r : Registry) :
    (r.registerBuiltins builtins).1.resolve name = r.resolve name := by
  induction builtins generalizing r with
  | nil => rfl
  | cons b rest ih =>
    have hname : name ≠ b.name := (h b List.mem_cons_self).symm
    rw [registerBuiltins]
    dsimp only
    rw [ih (fun c hc => h c (List.mem_cons_of_mem _ hc)), resolve_register, if_neg hname]

/-- A built-in has its name, whatever had it before. -/
theorem resolve_registerBuiltins_of_mem {builtins : List Builtin} {b : Builtin}
    (h : b ∈ builtins) (r : Registry) :
    (r.registerBuiltins builtins).1.resolve b.name = some (.builtin b) := by
  induction builtins generalizing r with
  | nil => simp at h
  | cons c rest ih =>
    rw [registerBuiltins]
    dsimp only
    by_cases hrest : b ∈ rest
    · exact ih hrest _
    · obtain rfl : b = c := (List.mem_cons.mp h).resolve_right hrest
      have hnames : ∀ c ∈ rest, c.name ≠ b.name := by
        intro c hc hname
        exact hrest (Builtin.name_injective hname ▸ hc)
      rw [resolve_registerBuiltins_of_not_mem hnames, resolve_register, if_pos rfl]

theorem resolve_build_builtin (group : String) (operations : List String) (expression : String)
    (b : Builtin) : (build group operations expression).1.resolve b.name = some (.builtin b) :=
  resolve_registerBuiltins_of_mem b.mem_all _

end Registry

/-- A call by the name of a built-in runs that built-in, whatever else has the name. -/
theorem Evaluator.evaluate_builtin (e : Evaluator) (b : Builtin) (args : List Value)
    (locale : Locale) :
    (e.evaluate b.name args locale).result = e.evaluateBuiltin b args locale := by
  rw [evaluate, if_neg b.name_ne_empty, registry, Evaluator.build, Registry.resolve_build_builtin]

end Reckoner
