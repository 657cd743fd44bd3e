import Winnow.Proofs.Engine.Request
import Winnow.Proofs.Memo.Key
import Winnow.Proofs.Memo.Results
import Winnow.Proofs.Memo.Patterns
import Winnow.Proofs.Scan
import Winnow.Engine.Filter
/-! # Runs of an engine

A run is a list of steps: expressions are validated, records filtered, caches dropped, operators
registered and unregistered. Beside what an engine does stands what it would do without its stores:
`check` for a tree, `answer` for a result. -/

namespace Winnow

/-- Changes of a table, one after the other. -/
inductive Table.Reaches : Table → Table → Prop
  | refl (t : Table) : Reaches t t
  | register {t u v : Table} (o : OperatorInfo) (overwrite : Bool) :
    Reaches t u → u.register o overwrite = .ok v → Reaches t v
  | unregister {t u v : Table} (name : String) : Reaches t u → u.unregister name = .ok v → Reaches t v

namespace Engine

/-- One thing that an engine is asked to do. -/
inductive Step
  | validate (expression maxDepth : Value)
  | filter (d : Data) (q : Query)
  | filterTraced (d : Data) (q : Query)
  | clear
  | register (o : OperatorInfo) (overwrite : Bool)
  | unregister (name : String)

/-- The engine that a step leaves. -/
def Step.next : Step → Engine → Engine
  | .validate x maxDepth, e => (Engine.validate x maxDepth e).2
  | .filter d q, e => (Engine.filter d q e).2
  | .filterTraced d q, e => (Engine.filterTraced d q e).2
  | .clear, e => (Engine.clear e).2
  | .register o overwrite, e =>
    (Request.onTable (fun t => (t.register o overwrite).map fun t => ((), t)) e).2
  | .unregister name, e => (Request.onTable (fun t => (t.unregister name).map fun t => ((), t)) e).2

/-- The engine that a run leaves. -/
def after (e : Engine) : List Step → Engine
  | [] => e
  | s :: ss => (s.next e).after ss

theorem after_append (e : Engine) (ss ss' : List Step) : e.after (ss ++ ss') = (e.after ss).after ss' := by
  induction ss generalizing e with
  | nil => rfl
  | cons s ss ih => exact ih (s.next e)

/-- The nesting limit of a call that names one or none. -/
def depthOf (e : Engine) (maxDepth : Value) : Value :=
  if maxDepth.isNull then .int e.defaults.maxDepth else maxDepth

/-- The bytes of which the key of an expression is the digest. -/
def expressionBytes (e : Engine) (expression depth : Value) : Outcome (List UInt8) :=
  Canonical.bytes (.list [expression, depth, .int e.table.version])

/-- The bytes of which the key of a result is the digest. -/
def resultBytes (e : Engine) (expression : Value) (o : Options) : Outcome (List UInt8) :=
  Canonical.bytes (.list [expression, o.affecting, .int e.table.version])

/-- The expression and nesting limit that a step has checked. -/
def Step.request? (e : Engine) : Step → Option (Value × Value)
  | .validate x maxDepth => some (x, e.depthOf maxDepth)
  | .filter _ q | .filterTraced _ q =>
    match Options.resolve e.defaults q.given q.overrides with
    | .ok o => some (q.expression, .int o.maxDepth)
    | .error _ => none
  | _ => none

/-- The bytes of the keys that a step may use. -/
def Step.messages (e : Engine) : Step → List (List UInt8)
  | .validate x maxDepth => (e.expressionBytes x (e.depthOf maxDepth)).toOption.toList
  | .filter _ q | .filterTraced _ q =>
    match Options.resolve e.defaults q.given q.overrides with
    | .ok o =>
      (e.expressionBytes q.expression (.int o.maxDepth)).toOption.toList ++
        (e.resultBytes q.expression o).toOption.toList
    | .error _ => []
  | _ => []

/-- The expressions and nesting limits that a run has checked. -/
def requests (e : Engine) (ss : List Step) : List (Value × Value) := ss.filterMap (·.request? e)

/-- The bytes of all keys that a run may use. -/
def messages (e : Engine) : List Step → List (List UInt8)
  | [] => []
  | s :: ss => s.messages e ++ (s.next e).messages ss

/-- Does the digest tell the keys of a run apart? -/
def CollisionFree (e : Engine) (ss : List Step) : Prop :=
  ∀ a ∈ e.messages ss, ∀ b ∈ e.messages ss, e.environment.digest a = e.environment.digest b → a = b

/-! ## Validation step by step -/

/-- The engine after a rejection was logged. -/
def rejecting (e : Engine) (f : Failure) : Engine :=
  if isRejection f then { e with notices := e.notices ++ [.debug (rejectionText f)] } else e

theorem validate_run (e : Engine) (x maxDepth : Value) : validate x maxDepth e =
    match e.expressionKey x (e.depthOf maxDepth) with
    | .error f => (.error f, e)
    | .ok key =>
      match e.expressions.get key with
      | (some node, expressions) => (.ok node, { e with expressions })
      | (none, expressions) =>
        match e.check x (e.depthOf maxDepth) with
        | .ok node => (.ok node, { e with expressions := expressions.put key node })
        | .error f => (.error f, rejecting { e with expressions } f) := by
  unfold validate depthOf
  simp only [Request.engine_bind]
  generalize (if maxDepth.isNull then .int e.defaults.maxDepth else maxDepth : Value) = depth
  rcases e.expressionKey x depth with f | key
  · rfl
  simp only [Request.lift_ok_bind]
  rcases e.expressions.get key with ⟨_ | node, expressions⟩
  · simp only [Request.update_bind]
    rcases e.check x depth with f | node
    · simp only [rejecting]
      split <;> rfl
    · rfl
  · rfl

/-! ## Without stores -/

/-- The engine with another table. -/
def withTable (e : Engine) (t : Table) : Engine := { e with table := t }

theorem checkingTable_of_nonempty {e : Engine} (ht : e.table.operators ≠ []) : e.checkingTable = e.table := by
  have hempty : ¬ e.table.operators.isEmpty = true := by simpa using ht
  unfold checkingTable Table.orDefault
  rw [if_neg hempty, ite_self]

/-- The outcome of a record's test. -/
def passes (e : Engine) (o : Options) (node : Node) (record : Value) : Outcome Bool :=
  (node.matches (o.terms e.now e.environment.functions) e.table record).run
    (compileAnswer e.patterns.maxLength)

/-- The records that pass, up to as many as are wanted. -/
def found (e : Engine) (o : Options) (node : Node) (wanted : Option Nat) (records : List Value) :
    Outcome (List Value) :=
  (Scan.run (fun (_ : Unit) record => (e.passes o node record, ())) () wanted records).outcome

/-- The result of a call on a tree and records. -/
def answer (e : Engine) (o : Options) (node : Node) (records : List Value) : Outcome (List Value) :=
  if o.orderBy.isEmpty then e.found o node o.limit records
  else (e.found o node none records).map (arrange o.orderBy (o.limit.map Int.ofNat) o.caseSensitive)

end Engine
end Winnow
