import Reckoner.Evaluation.Error

namespace Reckoner

structure Parameter where
  name : String
  kind : Kind
  optional : Bool
  deriving DecidableEq

def Parameter.required (name : String) (kind : Kind) : Parameter :=
  ⟨name, kind, false⟩

/-- What a function is called with. A variadic one takes any number of further arguments of any
kind. -/
structure Signature where
  name : String
  parameters : List Parameter
  returns : Kind
  variadic : Bool
  deriving DecidableEq

namespace Signature

def minArity (s : Signature) : Nat :=
  s.parameters.countP fun p => !p.optional

/-- `none` stands for no limit. -/
def maxArity (s : Signature) : Option Nat :=
  if s.variadic then none else some s.parameters.length

/-- The first argument that its parameter does not accept, counted from `index`. -/
def checkKinds (name : String) (index : Nat) : List Parameter → List Value → Except EvalError Unit
  | p :: parameters, v :: args =>
    if p.kind.accepts v.kind then checkKinds name (index + 1) parameters args
    else .error (.mismatch name index p.kind v)
  | _, _ => .ok ()

/-- Checks the number of arguments, then their kinds. -/
def check (s : Signature) (args : List Value) : Except EvalError Unit :=
  if args.length < s.minArity ∨ s.maxArity.any (· < args.length) then
    .error (.invalidArity s.name s.minArity s.maxArity args.length)
  else checkKinds s.name 0 s.parameters args

def text (s : Signature) : String :=
  let parameter (p : Parameter) : String :=
    p.name ++ ": " ++ p.kind.name ++ if p.optional then "?" else ""
  let parameters := ", ".intercalate (s.parameters.map parameter)
  let more := if s.variadic then ", ..." else ""
  s!"{s.name}({parameters}{more}) -> {s.returns.name}"

end Signature

end Reckoner
