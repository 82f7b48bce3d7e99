import Reckoner.Evaluation.Builtin
import Reckoner.Evaluation.Log
import Reckoner.Named

namespace Reckoner

/-- How a name is evaluated. -/
inductive Route
  | builtin (builtin : Builtin)
  | expression
  | operation
  deriving DecidableEq

/-- The names of a group of functions, each with its route. -/
structure Registry where
  group : String
  routes : Named Route

namespace Registry

def empty (group : String) : Registry :=
  ⟨group, .empty⟩

def resolve (r : Registry) (name : String) : Option Route :=
  r.routes.lookup name

def contains (r : Registry) (name : String) : Bool :=
  (r.resolve name).isSome

/-- All names in ascending order. -/
def names (r : Registry) : List String :=
  r.routes.names.mergeSort

def size (r : Registry) : Nat :=
  r.routes.names.length

def isEmpty (r : Registry) : Bool :=
  r.routes.names.isEmpty

/-- Registers a name, and gives back the route that it had. -/
def register (r : Registry) (name : String) (route : Route) : Option Route × Registry :=
  let (replaced, routes) := r.routes.insert name route
  (replaced, { r with routes })

/-- Registers built-ins, each over what had its name; an expression that loses its name is
recorded. -/
def registerBuiltins (r : Registry) : List Builtin → Registry × List LogRecord
  | [] => (r, [])
  | b :: rest =>
    let (replaced, next) := r.register b.name (.builtin b)
    let (done, log) := next.registerBuiltins rest
    (done, if replaced = some .expression then .expressionTaken b.name :: log else log)

/-- Operations first, the expression over them, the built-ins over both. -/
def build (group : String) (operations : List String) (expression : String) :
    Registry × List LogRecord :=
  let base := operations.foldl (fun r name => (r.register name .operation).2) (empty group)
  let (replaced, claimed) := base.register expression .expression
  let shadows : List LogRecord :=
    if replaced = some .operation then [.expressionShadows expression] else []
  let (done, taken) := claimed.registerBuiltins Builtin.all
  (done, shadows ++ taken ++ [.builtRegistry group done.size])

end Registry

end Reckoner
