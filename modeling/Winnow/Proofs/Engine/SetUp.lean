import Winnow.Proofs.Engine.Run
import Winnow.Proofs.Trace.Plain
/-! # What requests leave alone

`SetUp base J K e`: the engine `e` has table, environment, clock and defaults of `base`, every kept program
is what its source compiles to, and `J` and `K` hold of its kept trees and results. A request that neither
checks an expression nor looks results up keeps this for all `J` and `K`, and comes to what it would on
`base` without a store of patterns. -/

namespace Winnow.Engine
open Request

/-- Is the engine set up as another one, with sound patterns and stores that hold what they may? -/
structure SetUp (base : Engine) (J : Recent String Node → Prop)
    (K : ResultStore ResultKey (List Value) → Prop) (e : Engine) : Prop where
  table : e.table = base.table
  sharesTable : e.sharesTable = base.sharesTable
  environment : e.environment = base.environment
  now : e.now = base.now
  defaults : e.defaults = base.defaults
  maxLength : e.patterns.maxLength = base.patterns.maxLength
  patterns : e.patterns.Sound
  expressions : J e.expressions
  results : K e.results

variable {base e : Engine} {J : Recent String Node → Prop} {K : ResultStore ResultKey (List Value) → Prop}
  {o : Options} {node : Node} {q : Query} {records : List Value} {α : Type}

namespace SetUp

theorem with_patterns (hs : SetUp base J K e) {patterns : PatternStore} (hp : patterns.Sound)
    (hlen : patterns.maxLength = base.patterns.maxLength) (n : Nat) :
    SetUp base J K { e with patterns, recordsRead := n } :=
  { hs with patterns := hp, maxLength := hlen }

theorem with_expressions {J' : Recent String Node → Prop} (hs : SetUp base J K e)
    {expressions : Recent String Node} (he : J' expressions) : SetUp base J' K { e with expressions } :=
  { hs with expressions := he }

theorem rejecting (hs : SetUp base J K e) (f : Failure) : SetUp base J K (e.rejecting f) := by
  unfold Engine.rejecting
  split
  · exact { hs with }
  · exact hs

theorem check_eq (hs : SetUp base J K e) (x depth : Value) : e.check x depth = base.check x depth := by
  simp only [check, checkingTable, hs.table, hs.sharesTable, hs.environment]

theorem expressionKey_eq (hs : SetUp base J K e) (x depth : Value) :
    e.expressionKey x depth = base.expressionKey x depth := by
  simp only [expressionKey, hs.table, hs.environment]

/-- A test with a sound store of patterns comes to what it does without one, and leaves a sound store. -/
theorem test_eq (hs : SetUp base J K e) {s : PatternStore}
    (hp : s.Sound ∧ s.maxLength = base.patterns.maxLength) (record : Value) :
    (e.test o node s record).1 = base.passes o node record ∧
      (e.test o node s record).2.Sound ∧
      (e.test o node s record).2.maxLength = base.patterns.maxLength := by
  obtain ⟨hout, hsound, hlen⟩ :=
    hp.1.runState (node.matches (o.terms e.now e.environment.functions) e.table record)
  refine ⟨?_, hsound, hlen.trans hp.2⟩
  simp only [test, passes]
  rw [hout, hp.2, hs.now, hs.environment, hs.table]

end SetUp

theorem options_setUp : Ensures (SetUp base J K) (options q.given q.overrides)
    (· = Options.resolve base.defaults q.given q.overrides) := by
  intro e hs
  refine ⟨hs, ?_⟩
  rw [← hs.defaults]
  rfl

/-! ## Scans -/

theorem scan_setUp (wanted : Option Nat) :
    Ensures (SetUp base J K) (scan o node wanted records) (· = base.found o node wanted records) := by
  intro e hs
  have hrun := Scan.run_alike (e.test o node) (fun (_ : Unit) record => (base.passes o node record, ()))
    (R := fun s _ => s.Sound ∧ s.maxLength = base.patterns.maxLength)
    (fun s _ record hp => hs.test_eq hp record) records ⟨hs.patterns, hs.maxLength⟩ (t := ()) wanted
  exact ⟨hs.with_patterns hrun.state.1 hrun.state.2 _, hrun.outcome⟩

theorem evaluate_setUp :
    Ensures (SetUp base J K) (evaluate o node records) (· = base.answer o node records) := by
  unfold evaluate answer
  split
  · exact scan_setUp o.limit
  · exact (scan_setUp none).map _

theorem scanTraced_setUp : Keeps (SetUp base J K) (scanTraced o node records) := by
  intro e hs
  have hrun := Scan.run_state (e.tracedTest o)
    (J := fun s => s.1.Sound ∧ s.1.maxLength = base.patterns.maxLength)
    (fun s record hp => by
      obtain ⟨-, hsound, hlen⟩ := hp.1.runState
        (s.2.node.traced (o.terms e.now e.environment.functions) e.checkingTable s.2.ledger [] record).plain
      rw [Traced.runState_plain] at hsound hlen
      exact ⟨hsound, hlen.trans hp.2⟩)
    (s := (e.patterns, Tracer.ofNode e.checkingTable o.showTimings node (.own node)))
    ⟨hs.patterns, hs.maxLength⟩ none records
  exact ⟨hs.with_patterns hrun.1 hrun.2 _, trivial⟩

/-! ## Notes and measures -/

theorem note_setUp (n : Notice) : Ensures (SetUp base J K) (note n) (· = .ok ()) :=
  fun _ hs => ⟨{ hs with }, rfl⟩

theorem measured_setUp {r : Request α} {Q : Outcome α → Prop} {operation : String}
    (hr : Ensures (SetUp base J K) r Q) : Ensures (SetUp base J K) (measured o operation r) Q := by
  intro e hs
  obtain ⟨hsound, hQ⟩ := hr e hs
  unfold measured
  refine ⟨?_, hQ⟩
  simp only
  split
  · exact { hsound with }
  · exact hsound

end Winnow.Engine
