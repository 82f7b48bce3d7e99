import Reckoner.Evaluation.Signature
import Reckoner.Json.Basic

namespace Reckoner

def Parameter.toJson (p : Parameter) : Json :=
  .object (.ofList
    [("name", .string p.name),
     ("param_type", .string p.kind.name),
     ("optional", .boolean p.optional)])

def Signature.toJson (s : Signature) : Json :=
  .object (.ofList
    [("name", .string s.name),
     ("parameters", .array (s.parameters.map Parameter.toJson)),
     ("return_type", .string s.returns.name),
     ("min_arity", .number (.natural (UInt64.ofNat s.minArity))),
     ("max_arity", s.maxArity.elim .null fun n => .number (.natural (UInt64.ofNat n)))])

end Reckoner
