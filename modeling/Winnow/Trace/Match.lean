import Winnow.Trace.Ledger
import Winnow.Matching.Match
import Winnow.Memo.Patterns
/-! # Matching with a trace

Traced matching asks and answers as matching does, and notes what every part that was reached came to.
Counting the notes gives the trace of a run. -/

namespace Winnow

/-- A part that was reached, and whether it passed. -/
structure Event where
  address : Address
  passed : Bool
deriving DecidableEq, Repr

/-- An evaluation that notes events on its way. -/
inductive Traced (α : Type)
  | done (outcome : Outcome α)
  | ask (source : String) (flags : Int) (next : Option Pattern.Program → Traced α)
  | note (event : Event) (rest : Traced α)

namespace Traced

variable {α β σ : Type}

def bind : Traced α → (α → Traced β) → Traced β
  | done (.ok a), f => f a
  | done (.error e), _ => done (.error e)
  | ask source flags next, f => ask source flags fun p => (next p).bind f
  | note event rest, f => note event (rest.bind f)

instance : Monad Traced where
  pure a := done (.ok a)
  bind := bind

/-- An evaluation that notes nothing. -/
def untraced : Evaluation α → Traced α
  | .done outcome => done outcome
  | .ask source flags next => ask source flags fun p => untraced (next p)

/-- Notes what the part at an address came to, if there is one. -/
def recordAt (part? : Option Address) (t : Traced Bool) : Traced Bool := do
  let b ← t
  match part? with
  | some address => note ⟨address, b⟩ (pure b)
  | none => return b

def negation (t : Traced Bool) : Traced Bool := do return !(← t)

/-- Does some item pass? Items after the first that passes are not looked at. -/
def anyItem (test : α → Traced Bool) : List α → Traced Bool
  | [] => pure false
  | x :: xs => do if ← test x then return true else anyItem test xs

/-- The outcome with the events up to it, when questions are answered by something that changes with every
answer. -/
def runState (answer : σ → String → Int → Outcome (Option Pattern.Program) × σ) :
    σ → Traced α → (Outcome α × List Event) × σ
  | s, done outcome => ((outcome, []), s)
  | s, ask source flags next =>
    match answer s source flags with
    | (.ok p, s) => runState answer s (next p)
    | (.error e, s) => ((.error e, []), s)
  | s, note event rest =>
    let r := runState answer s rest
    ((r.1.1, event :: r.1.2), r.2)

end Traced

mutual

/-- Matches a record against a node at an address. -/
def Node.traced (t : Terms) (table : Table) (l : Ledger) : Node → Address → Value → Traced Bool
  | .all items _, p, record => Traced.recordAt (l.part? p) (tracedAll t table l items p 0 record)
  | .any items, p, record => Traced.recordAt (l.part? p) (tracedAny t table l items p 0 record)
  | .not item, p, record => Traced.recordAt (l.part? p) (item.traced t table l (p.branch 0) record).negation
  | .field path condition, p, record =>
    Traced.recordAt (l.part? p)
      (condition.traced t table l p (Path.resolve record (Path.segments path)))
  | .anyProperty literal, p, record =>
    Traced.recordAt (l.part? p) (.untraced (t.matchesProperty literal record))
  | .predicate c, p, record => Traced.recordAt (l.part? p) (.untraced (t.matchesPredicate c record))
termination_by structural n => n

def tracedAll (t : Terms) (table : Table) (l : Ledger) : List Node → Address → Nat → Value → Traced Bool
  | [], _, _, _ => pure true
  | n :: ns, p, i, record => do
    if ← n.traced t table l (p.branch i) record then tracedAll t table l ns p (i + 1) record
    else return false
termination_by structural ns => ns

def tracedAny (t : Terms) (table : Table) (l : Ledger) : List Node → Address → Nat → Value → Traced Bool
  | [], _, _, _ => pure false
  | n :: ns, p, i, record => do
    if ← n.traced t table l (p.branch i) record then return true
    else tracedAny t table l ns p (i + 1) record
termination_by structural ns => ns

/-- Tests a value against a condition at an address. -/
def Condition.traced (t : Terms) (table : Table) (l : Ledger) : Condition → Address → Value → Traced Bool
  | .nested node, p, actual =>
    Traced.anyItem (fun v => node.traced t table l (p.branch 0) v) actual.subrecords
  | .tests ts, p, actual =>
    match l.testParts? p with
    | some parts => tracedTests t table l ts (parts.map some) p 0 actual
    | none => tracedTests t table l ts (ts.map fun _ => none) p 0 actual
  | .literal literal, _, actual => .untraced (t.matchesLiteral literal actual)
  | .anyOf members, _, actual => .untraced (t.matchesMember members actual)
termination_by structural c => c

/-- The tests of a map of operators, each with the part for which it counts, up to the shorter of both
lists. -/
def tracedTests (t : Terms) (table : Table) (l : Ledger) :
    List Test → List (Option Address) → Address → Nat → Value → Traced Bool
  | test :: rest, part? :: parts, p, i, actual => do
    if ← Traced.recordAt part? (test.traced t table l (p.branch i) actual)
    then tracedTests t table l rest parts p (i + 1) actual
    else return false
  | [], _, _, _, _ | _, [], _, _, _ => pure true
termination_by structural ts => ts

def Test.traced (t : Terms) (table : Table) (l : Ledger) : Test → Address → Value → Traced Bool
  | .apply key operand _, _, actual => .untraced (table.test t key operand actual)
  | .negate condition _, p, actual => (condition.traced t table l p actual).negation
termination_by structural test => test

end

namespace Trace

/-- The events of a part. -/
def eventsAt (p : Address) (events : List Event) : List Event := events.filter (·.address == p)

/-- An entry with the counts of its events. -/
def fillEntry (timed : Bool) (events : List Event) (e : TraceEntry) : TraceEntry :=
  events.foldl (fun e event => e.record event.passed (if timed then some .unmeasured else none)) e

mutual

/-- The trace with the counts of a run's events. -/
def fill (timed : Bool) (events : List Event) (p : Address) : Trace → Trace
  | node e ts => node (fillEntry timed (eventsAt p events) e) (fillAll timed events p 0 ts)
termination_by structural t => t

def fillAll (timed : Bool) (events : List Event) (p : Address) (i : Nat) : List Trace → List Trace
  | [] => []
  | t :: ts => fill timed events (p.branch i) t :: fillAll timed events p (i + 1) ts
termination_by structural ts => ts

end

end Trace

/-- A matcher that counts what it does in the trace of a node. -/
structure Tracer where
  node : Node
  ledger : Ledger
  timed : Bool
  trace : Trace

namespace Tracer

/-- A tracer that has read no record yet, with labels from a table. -/
def ofNode (table : Table) (timed : Bool) (node : Node) (objects : Objects node) : Tracer :=
  ⟨node, .ofNode node objects, timed, .ofNode table node⟩

/-- Tests a record and counts what its parts came to, also when the test fails on the way. -/
def test (t : Terms) (table : Table) (s : PatternStore × Tracer) (record : Value) :
    Outcome Bool × (PatternStore × Tracer) :=
  let traced := s.2.node.traced t table s.2.ledger [] record
  let ((passed, events), patterns) := traced.runState PatternStore.answer s.1
  (passed, (patterns, { s.2 with trace := s.2.trace.fill s.2.timed events [] }))

end Tracer
end Winnow
