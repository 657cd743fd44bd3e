import Winnow.Expression.Literal
import Winnow.Operator.Operand
/-! # Expression trees

A checked expression. Conditions test the value that a path leads to, nodes test records. `toValue`
gives back the written form. -/

namespace Winnow

mutual

/-- One entry of a map of operators. -/
inductive Test
  /-- an operator with its operand, as used and as written -/
  | apply (key : String) (operand : Operand) (raw : Value)
  /-- the negation of a condition -/
  | negate (condition : Condition) (raw : Value)

inductive Condition
  | literal (l : Literal)
  /-- all tests, in order -/
  | tests (ts : List Test)
  /-- equality with some member -/
  | anyOf (members : List Literal)
  /-- a node that the value has to match -/
  | nested (node : Node)

inductive Node
  /-- all items; `implicit` for the entries of one object -/
  | all (items : List Node) (implicit : Bool)
  | any (items : List Node)
  | not (item : Node)
  | field (path : String) (condition : Condition)
  /-- some property of the record equals the literal -/
  | anyProperty (l : Literal)
  | predicate (c : Callable)

end

instance : Inhabited Node := ⟨.all [] true⟩
instance : Inhabited Condition := ⟨.literal default⟩

/-- The key of negations. -/
def notKey : String := "$not"
def andKey : String := "$and"
def orKey : String := "$or"

namespace Test

def key : Test → String
  | apply key _ _ => key
  | negate _ _ => notKey

def raw : Test → Value
  | apply _ _ raw => raw
  | negate _ raw => raw

end Test

/-- The written form of a map of operators. -/
def testsValue (ts : List Test) : Value := .ofPairs (ts.map fun t => (t.key, t.raw))

def entriesOf : Value → List (Value × Value)
  | .object entries => entries
  | _ => []

/-- The entries of mappings in one, later ones over earlier ones. -/
def mergeEntries (mappings : List Value) : List (Value × Value) :=
  mappings.foldl (fun entries m => Value.update entries (entriesOf m)) []

mutual

/-- The written form of a condition. -/
def Condition.toValue : Condition → Value
  | .literal l => l.raw
  | .tests ts => testsValue ts
  | .anyOf members => .list (members.map (·.raw))
  | .nested node => node.toValue
termination_by structural c => c

/-- The written form of a node; the entries of an implicit conjunction are merged. -/
def Node.toValue : Node → Value
  | .all items true => .object (mergeEntries (itemValues items))
  | .all items false => .ofPairs [(andKey, .list (itemValues items))]
  | .any items => .ofPairs [(orKey, .list (itemValues items))]
  | .not item => .ofPairs [(notKey, item.toValue)]
  | .field path condition => .ofPairs [(path, condition.toValue)]
  | .anyProperty l => l.raw
  | .predicate c => .callable c
termination_by structural n => n

def itemValues : List Node → List Value
  | [] => []
  | n :: ns => n.toValue :: itemValues ns
termination_by structural ns => ns

end

namespace Node

/-- The number of nodes directly below a node. -/
def childCount : Node → Nat
  | all items _ | any items => items.length
  | not _ => 1
  | field _ (.nested _) => 1
  | _ => 0

/-- Both nodes. -/
def and (a b : Node) : Node := .all [a, b] false

/-- Either node. -/
def or (a b : Node) : Node := .any [a, b]

end Node
end Winnow
