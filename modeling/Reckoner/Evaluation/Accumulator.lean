import Reckoner.Evaluation.Error
import Reckoner.Value.Text

namespace Reckoner

/-- How a leaf is folded into a total. -/
inductive Combiner
  | add
  | multiply
  | addReciprocal
  deriving DecidableEq

/-- The total with one more number; zero has no reciprocal. -/
def Combiner.combine? (combiner : Combiner) (total x : Exact) : Option Exact :=
  match combiner with
  | add => some (total.add x)
  | multiply => some (total.mul x)
  | addReciprocal => if x.isZero then none else some (total.add x.inverse)

/-- A running total and how many leaves went into it. -/
structure Accumulator where
  combiner : Combiner
  count : Nat
  total : Exact

namespace Accumulator

def start (initial : Exact) (combiner : Combiner) : Accumulator :=
  ⟨combiner, 0, initial⟩

/-- Folds one leaf of the argument at `index`. -/
def addLeaf (acc : Accumulator) (name : String) (index : Nat) (leaf : Value) :
    Except EvalError Accumulator :=
  if leaf.isNumeric then
    match leaf.toExact? with
    | none => .error (.evaluation name (.notDecimal leaf.text))
    | some x =>
      match acc.combiner.combine? acc.total x with
      | none => .error (.evaluation name .divisionByZero)
      | some total => .ok { acc with count := acc.count + 1, total }
  else .error (.mismatch name index .number leaf)

/-- Folds a value, which is the argument at `index`. A collection is folded element by element, as
far as the first one that fails. -/
def accumulate (acc : Accumulator) (name : String) (index : Nat) (v : Value) :
    Accumulator × Except EvalError Unit :=
  match v with
  | .collection items => accumulateItems acc items
  | leaf =>
    match acc.addLeaf name index leaf with
    | .ok next => (next, .ok ())
    | .error error => (acc, .error error)
where
  accumulateItems (acc : Accumulator) : List Value → Accumulator × Except EvalError Unit
    | [] => (acc, .ok ())
    | item :: rest =>
      match acc.accumulate name index item with
      | (next, .ok ()) => accumulateItems next rest
      | failed => failed

/-- Folds arguments in order, the first of which is at `index`. -/
def accumulateFrom (acc : Accumulator) (name : String) (index : Nat) :
    List Value → Accumulator × Except EvalError Unit
  | [] => (acc, .ok ())
  | arg :: rest =>
    match acc.accumulate name index arg with
    | (next, .ok ()) => next.accumulateFrom name (index + 1) rest
    | failed => failed

/-- Folds all arguments in order. -/
def accumulateAll (acc : Accumulator) (name : String) (args : List Value) :
    Accumulator × Except EvalError Unit :=
  acc.accumulateFrom name 0 args

/-- The accumulator after arguments that all went in. -/
def run (acc : Accumulator) (name : String) (args : List Value) : Except EvalError Accumulator :=
  match acc.accumulateAll name args with
  | (done, .ok ()) => .ok done
  | (_, .error error) => .error error

end Accumulator

/-- What `product` does with its arguments. -/
inductive ProductRule
  | multiply
  /-- Adds the arguments to one. -/
  | legacyAdditive
  deriving DecidableEq

/-- The exact sum of all leaves. -/
def sum (name : String) (args : List Value) : Except EvalError Value := do
  let acc ← (Accumulator.start .zero .add).run name args
  return .ofExact acc.total

/-- The exact product of all leaves, or what the rule puts in its place. -/
def product (name : String) (args : List Value) (rule : ProductRule) : Except EvalError Value := do
  let combiner : Combiner :=
    match rule with
    | .multiply => .multiply
    | .legacyAdditive => .add
  let acc ← (Accumulator.start .one combiner).run name args
  return .ofExact acc.total

end Reckoner
