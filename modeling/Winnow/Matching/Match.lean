import Winnow.Expression.Tree
import Winnow.Operator.Meaning
import Winnow.Record.Path
/-! # Matching records

A node matches a record when its conditions hold of the values that its paths lead to. Of several
items only those that decide the outcome are looked at, in order. An operator that the table does not
hold fails, and so does one that misses. -/

namespace Winnow

/-- The properties of a record. -/
def Value.properties : Value → List Value
  | .object entries => entries.map (·.2)
  | .record fields => fields.map (·.2)
  | _ => []

namespace Terms

variable (t : Terms)

/-- Does a value equal a literal, its negation aside? A comparator decides for values that are there;
wildcards match texts and texts in lists. -/
def hitsLiteral (l : Literal) (actual : Value) : Evaluation Bool :=
  match l.wildcard with
  | some source => .ask source t.patternFlags fun p =>
    let test : Value → Bool
      | .text s => p.any (·.matchesStart s)
      | _ => false
    pure (test actual || (actual.items?.getD []).any test)
  | none =>
    match t.comparator, actual.isMissing with
    | some c, false => .done ((t.functions c (.comparison actual l.value)).map Value.truth)
    | _, _ => pure (actual.matchesThrough t.caseSensitive l.value)

def matchesLiteral (l : Literal) (actual : Value) : Evaluation Bool :=
  if l.negated then (t.hitsLiteral l actual).negation else t.hitsLiteral l actual

def matchesMember (members : List Literal) (actual : Value) : Evaluation Bool :=
  Evaluation.anyItem (fun l => t.hitsLiteral l actual) members

/-- Does some property of the record equal the literal, or, negated, none? -/
def matchesProperty (l : Literal) (record : Value) : Evaluation Bool :=
  if record.isNull then pure false
  else
    let candidates := if record.isPrimitive then [record] else record.properties
    let hit := Evaluation.anyItem (t.hitsLiteral l) candidates
    if l.negated then hit.negation else hit

def matchesPredicate (c : Callable) (record : Value) : Evaluation Bool :=
  .done ((t.functions c (.predicate record)).map Value.truth)

end Terms

/-- Does the value pass the operator that a table holds under a key? -/
def Table.test (table : Table) (t : Terms) (key : String) (operand : Operand) (actual : Value) :
    Evaluation Bool :=
  match table.find? key with
  | some o => (o.test t actual operand).orMiss
  | none => pure false

/-- Can a value have fields of its own? -/
def Value.hasFields (v : Value) : Bool := !(v.isMissing || v.isNull || v.isPrimitive)

/-- The records that a value stands for: itself when it has fields, or those items of a list that are no
lists and have fields. -/
def Value.subrecords (v : Value) : List Value :=
  match v.items? with
  | some items => items.filter fun item => !item.isArray && item.hasFields
  | none => if v.hasFields then [v] else []

mutual

/-- Does the record match the node? -/
def Node.matches (t : Terms) (table : Table) : Node → Value → Evaluation Bool
  | .all items _, record => allMatch t table items record
  | .any items, record => anyMatches t table items record
  | .not item, record => (item.matches t table record).negation
  | .field path condition, record =>
    condition.holds t table (Path.resolve record (Path.segments path))
  | .anyProperty l, record => t.matchesProperty l record
  | .predicate c, record => t.matchesPredicate c record
termination_by structural n => n

def allMatch (t : Terms) (table : Table) : List Node → Value → Evaluation Bool
  | [], _ => pure true
  | n :: ns, record => do
    if ← n.matches t table record then allMatch t table ns record else return false
termination_by structural ns => ns

def anyMatches (t : Terms) (table : Table) : List Node → Value → Evaluation Bool
  | [], _ => pure false
  | n :: ns, record => do
    if ← n.matches t table record then return true else anyMatches t table ns record
termination_by structural ns => ns

/-- Does the condition hold of a value? -/
def Condition.holds (t : Terms) (table : Table) : Condition → Value → Evaluation Bool
  | .literal l, actual => t.matchesLiteral l actual
  | .tests ts, actual => allPass t table ts actual
  | .anyOf members, actual => t.matchesMember members actual
  | .nested node, actual => Evaluation.anyItem (fun v => node.matches t table v) actual.subrecords
termination_by structural c => c

def allPass (t : Terms) (table : Table) : List Test → Value → Evaluation Bool
  | [], _ => pure true
  | test :: rest, actual => do
    if ← test.passes t table actual then allPass t table rest actual else return false
termination_by structural ts => ts

def Test.passes (t : Terms) (table : Table) : Test → Value → Evaluation Bool
  | .apply key operand _, actual => table.test t key operand actual
  | .negate condition _, actual => (condition.holds t table actual).negation
termination_by structural test => test

end

end Winnow
