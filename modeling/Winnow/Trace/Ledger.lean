import Winnow.Trace.Basic
/-! # Where parts of an expression count

Counts belong to objects in memory: a node or a map of operators that stands in an expression more than
once counts for the part of the trace that was made last. `Objects` says which addresses of an expression
hold the same object, and a `Ledger` finds the parts that count. In an expression as a check gives it every
address holds an object of its own (`Objects.own`). -/

namespace Winnow

namespace Address

/-- The address of a branch. -/
def branch (p : Address) (i : Nat) : Address := p ++ [i]

/-- The addresses of the first branches. -/
def branches (p : Address) (n : Nat) : List Address := (List.range n).map p.branch

end Address

/-- A part of a trace by its address, with the addresses of the parts for its tests if these have parts. -/
structure Place where
  address : Address
  tests? : Option (List Address) := none
deriving DecidableEq, Repr

mutual

/-- The parts of a node's trace, those of tests apart, in the order in which they are made. -/
def Node.places : Node → Address → List Place
  | .all items _, p | .any items, p => { address := p } :: placesAll items p 0
  | .not item, p => { address := p } :: item.places (p.branch 0)
  | .field _ condition, p => condition.places p
  | .anyProperty _, p | .predicate _, p => [{ address := p }]
termination_by structural n => n

def placesAll : List Node → Address → Nat → List Place
  | [], _, _ => []
  | n :: ns, p, i => n.places (p.branch i) ++ placesAll ns p (i + 1)
termination_by structural ns => ns

/-- The parts of a field's trace; a single test has none of its own. -/
def Condition.places : Condition → Address → List Place
  | .nested node, p => { address := p } :: node.places (p.branch 0)
  | .tests ts, p => [⟨p, if ts.length = 1 then none else some (p.branches ts.length)⟩]
  | .literal _, p | .anyOf _, p => [{ address := p }]
termination_by structural c => c

end

mutual

/-- The map of operators at an address: that of a field at the address of the field, that of a negation at
the address of its test. -/
def Node.testsAt? : Node → Address → Option (List Test)
  | .all items _, i :: rest | .any items, i :: rest => testsAtAll? items i rest
  | .not item, _ :: rest => item.testsAt? rest
  | .field _ condition, rest => condition.testsAt? rest
  | _, _ => none
termination_by structural n => n

def testsAtAll? : List Node → Nat → Address → Option (List Test)
  | [], _, _ => none
  | n :: _, 0, rest => n.testsAt? rest
  | _ :: ns, i + 1, rest => testsAtAll? ns i rest
termination_by structural ns => ns

def Condition.testsAt? : Condition → Address → Option (List Test)
  | .nested node, _ :: rest => node.testsAt? rest
  | .tests ts, [] => some ts
  | .tests ts, i :: rest => testsAtWithin? ts i rest
  | _, _ => none
termination_by structural c => c

def testsAtWithin? : List Test → Nat → Address → Option (List Test)
  | [], _, _ => none
  | test :: _, 0, rest => test.testsAt? rest
  | _ :: ts, i + 1, rest => testsAtWithin? ts i rest
termination_by structural ts => ts

def Test.testsAt? : Test → Address → Option (List Test)
  | .apply .., _ => none
  | .negate condition _, rest => condition.testsAt? rest
termination_by structural test => test

end

/-- Which addresses of an expression hold the same object: those to which the same name is given. An object
that is a map of operators has one list of tests. -/
structure Objects (n : Node) where
  node : Address → Address
  map : Address → Address
  tests_eq : ∀ p q, map p = map q → n.testsAt? p = n.testsAt? q

/-- Every address holds an object of its own. -/
def Objects.own (n : Node) : Objects n where
  node p := p
  map p := p
  tests_eq _ _ h := congrArg n.testsAt? h

/-- Where objects count. -/
structure Ledger where
  /-- the part for the node at an address -/
  part? : Address → Option Address
  /-- the parts for the tests of the map of operators at an address -/
  testParts? : Address → Option (List Address)

/-- The ledger of a node: of the parts that are made for an object the last one counts. -/
def Ledger.ofNode (n : Node) (objects : Objects n) : Ledger :=
  let places := (n.places []).reverse
  { part? p := (places.find? fun q => objects.node q.address == objects.node p).map (·.address)
    testParts? p := places.findSome? fun q =>
      if objects.map q.address == objects.map p then q.tests? else none }

end Winnow
