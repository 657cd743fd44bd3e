import Winnow.Transport.Canonical
import Winnow.Options
/-! # Keys of kept results

A result depends on the expression, on the options that decide which records come back and in which
order, and on the version of the operator table. Its key is the digest of these three with the
callables among them; the order of mapping entries does not matter. -/

namespace Winnow

/-- What programs are given from outside: functions by name, and a digest of bytes. -/
structure Environment where
  functions : Functions
  digest : List UInt8 → String

/-- The digest that keys use, in hexadecimal. -/
def keyDigest (bytes : List UInt8) : String :=
  Digest.hexText (Digest.blake2b Canonical.keySize.toNat bytes)

def Environment.standard : Environment := ⟨Functions.standard, keyDigest⟩

/-- Callables reachable through mappings and sequences. -/
def Value.callables : Value → List Callable
  | object entries => ofEntries entries
  | list items => ofItems items
  | tuple items => ofItems items
  | set items => ofItems items
  | callable c => [c]
  | _ => []
where
  ofItems : List Value → List Callable
  | [] => []
  | v :: vs => v.callables ++ ofItems vs
  ofEntries : List (Value × Value) → List Callable
  | [] => []
  | (_, v) :: es => v.callables ++ ofEntries es

/-- The options that a result depends on. -/
def Options.affecting (o : Options) : Value :=
  .ofPairs
    [("case_sensitive", .bool o.caseSensitive), ("max_depth", .int o.maxDepth),
     ("order_by", .list (o.orderBy.map (·.toValue))),
     ("limit", (o.limit.map fun (n : Nat) => Value.int n).getD .null),
     ("custom_comparator", (o.customComparator.map Value.callable).getD .null)]

structure ResultKey where
  digest : String
  callables : List Callable
deriving Repr

namespace ResultKey

/-- Keys are equal when their digests are and they hold the same callables. -/
instance : BEq ResultKey where
  beq a b := a.digest == b.digest && a.callables.all (b.callables.contains ·) &&
    b.callables.all (a.callables.contains ·)

/-- The key of a result. -/
def make (env : Environment) (expression : Value) (o : Options) (version : Nat) :
    Outcome ResultKey := do
  let bytes ← Canonical.bytes (.list [expression, o.affecting, .int version])
  return ⟨env.digest bytes, expression.callables ++ o.customComparator.toList⟩

end ResultKey

/-- The literal of a callable inside a key. -/
def Callable.reference (c : Callable) : String := "CallableRef(" ++ Text.quoted c.name ++ ")"

end Winnow
