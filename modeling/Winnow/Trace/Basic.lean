import Winnow.Expression.Tree
import Winnow.Operator.Table
/-! # Traces

A trace has the shape of a node: what each part tests, how many records reached it and how many
passed. Durations are known only to programs with a clock. -/

namespace Winnow

inductive TraceKind
  | logical | field | operator | primitive
deriving DecidableEq, Repr

namespace TraceKind

def name : TraceKind → String
  | logical => "logical"
  | field => "field"
  | operator => "operator"
  | primitive => "primitive"

def ofName (s : String) : TraceKind :=
  ([logical, field, operator].find? (·.name == s)).getD primitive

end TraceKind

/-- A duration in milliseconds, or one that nobody measured. -/
inductive Duration
  | measured (ms : Float)
  | unmeasured
deriving Repr

namespace Duration

def add : Duration → Duration → Duration
  | measured a, measured b => measured (a + b)
  | _, _ => unmeasured

/-- The duration with a number of places; one that nobody measured is a mark. -/
def text (places : Nat) : Duration → String
  | measured ms => floatFixed places ms ++ "ms"
  | unmeasured => "#ms"

end Duration

/-- One part of a trace. -/
structure TraceEntry where
  kind : TraceKind
  label : String
  field : Option String := none
  operator : Option String := none
  operand : Value := .null
  evaluated : Nat := 0
  matched : Nat := 0
  elapsed : Option Duration := none
deriving Repr

inductive Trace
  | node (entry : TraceEntry) (children : List Trace)
deriving Repr

instance : Inhabited Trace := ⟨.node ⟨.primitive, "", none, none, .null, 0, 0, none⟩ []⟩

/-- A part of a trace by the places of the branches that lead to it. -/
abbrev Address := List Nat

namespace TraceEntry

/-- Counts one more record. -/
def record (e : TraceEntry) (passed : Bool) (elapsed : Option Duration) : TraceEntry :=
  { e with
    evaluated := e.evaluated + 1
    matched := if passed then e.matched + 1 else e.matched
    elapsed :=
      match elapsed with
      | some d => some ((e.elapsed.getD (.measured 0.0)).add d)
      | none => e.elapsed }

end TraceEntry

namespace Trace

def entry : Trace → TraceEntry
  | node e _ => e

def children : Trace → List Trace
  | node _ ts => ts

/-- The entries, each before those below it. -/
def walk : Trace → List TraceEntry
  | node e ts => e :: walkAll ts
where
  walkAll : List Trace → List TraceEntry
  | [] => []
  | t :: ts => t.walk ++ walkAll ts

/-- How often some part was reached. -/
def evaluations (t : Trace) : Nat := t.walk.foldr (fun e n => e.evaluated + n) 0

def operatorEntry (table : Table) (path key : String) (operand : Value) : TraceEntry :=
  { kind := .operator, label := table.labelFor key, field := some path, operator := some key, operand }

def logicalEntry (table : Table) (key : String) : TraceEntry :=
  { kind := .logical, label := table.labelFor key, operator := some key }

def leaf (e : TraceEntry) : Trace := .node e []

mutual

/-- The trace of a node before any record is read, with labels from a table. -/
def ofNode (table : Table) : Node → Trace
  | .all items _ => .node (logicalEntry table andKey) (ofNodes table items)
  | .any items => .node (logicalEntry table orKey) (ofNodes table items)
  | .not item => .node (logicalEntry table notKey) [ofNode table item]
  | .field path condition => ofCondition table path condition
  | .anyProperty l => leaf { kind := .primitive, label := "ANY", operand := l.raw }
  | .predicate c =>
    leaf { kind := .primitive, label := "function", operator := some "function", operand := .text c.name }
termination_by structural n => n

def ofNodes (table : Table) : List Node → List Trace
  | [] => []
  | n :: ns => ofNode table n :: ofNodes table ns
termination_by structural ns => ns

/-- The trace of a condition on a path; a single operator has no part of its own. -/
def ofCondition (table : Table) (path : String) : Condition → Trace
  | .literal l =>
    leaf (operatorEntry table path (if l.negated then Builtin.ne.key else Builtin.eq.key) l.raw)
  | .anyOf members =>
    leaf { kind := .field, label := "OR", field := some path, operator := some Builtin.isIn.key,
           operand := .list (members.map (·.raw)) }
  | .nested n => .node { kind := .field, label := path, field := some path } [ofNode table n]
  | .tests [test] => leaf (operatorEntry table path test.key test.raw)
  | .tests ts =>
    .node { kind := .field, label := path, field := some path }
      (ts.map fun test => leaf (operatorEntry table path test.key test.raw))
termination_by structural c => c

end

end Trace
end Winnow
