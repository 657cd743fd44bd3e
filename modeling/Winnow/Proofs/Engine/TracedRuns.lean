import Winnow.Proofs.Engine.Agreement
import Winnow.Proofs.Trace.Flow
/-! # Counts of traced runs

The trace of a run counts every record at the root, and what reaches a part is what the parts before it send
there. The statistics are those of the trace. -/

namespace Winnow

/-- Do the counts of a run fit the tree that it matched, and its statistics the trace? -/
structure TracedRun.Conserves (node : Node) (run : TracedRun) : Prop where
  total : run.trace.entry.evaluated = run.statistics.total
  matched : run.trace.entry.matched = run.statistics.matched
  bounded : run.trace.Bounded
  parts : node.Conserves run.trace
  evaluations : run.statistics.evaluations = (run.trace.walk.map (·.evaluated)).sum

theorem Trace.evaluations_eq_sum (c : Trace) : c.evaluations = (c.walk.map (·.evaluated)).sum := by
  rw [evaluations, List.sum, List.foldr_map]

namespace Engine
open Request

variable {o : Options} {node : Node} {records : List Value} {d : Data} {q : Query} {e : Engine}

theorem measured_outcome {α : Type} {r : Request α} {Q : Outcome α → Prop} {operation : String}
    (hr : Ensures (fun _ => True) r Q) : Ensures (fun _ => True) (measured o operation r) Q :=
  fun e _ => ⟨trivial, (hr e trivial).2⟩

/-- A scan that comes to an end has counted all records, and as many that pass as it found. -/
theorem scanTraced_counted :
    Ensures (fun _ => True) (scanTraced o node records) fun x => ∀ found trace, x = .ok (found, trace) →
      ∃ tracer : Tracer, tracer.Counted node records.length found.length ∧ tracer.trace = trace := by
  refine fun e _ => ⟨trivial, fun found trace hx => ?_⟩
  obtain ⟨found', hfound, heq⟩ := Outcome.map_eq_ok.1 hx
  cases heq
  obtain ⟨hok, rfl⟩ := Scan.outcome_eq_ok.1 hfound
  have hcounted := Scan.run_counted (e.tracedTest o)
    (J := fun read found (s : PatternStore × Tracer) => s.2.Counted node read found)
    (fun _ _ _ _ _ _ h htest => h.test htest) records
    (s := (e.patterns, .ofNode e.checkingTable o.showTimings node (.own node)))
    (Tracer.ofNode_counted ..) hok
  rw [Nat.zero_add, Nat.zero_add] at hcounted
  exact ⟨_, hcounted, rfl⟩

theorem runTraced_conserves :
    Ensures (fun _ => True) (runTraced d q o node records) fun x => ∀ run, x = .ok run →
      run.Conserves node ∧ run.statistics.total = records.length := by
  have hprobe : Keeps (fun _ => True) (probe o d q) := fun _ _ => ⟨trivial, trivial⟩
  refine Ensures.bind hprobe (fun hit _ => (measured_outcome scanTraced_counted).bind ?_ ?_) ?_
  · rintro ⟨found, trace⟩ hscan
    obtain ⟨tracer, hcounted, rfl⟩ := hscan found trace rfl
    refine ensures_pure fun run hrun => ?_
    cases hrun
    exact ⟨{
      total := hcounted.evaluated
      matched := hcounted.matched
      bounded := hcounted.bounded
      parts := hcounted.conserves
      evaluations := Trace.evaluations_eq_sum _ }, rfl⟩
  · exact fun _ _ _ h => nomatch h
  · exact fun _ _ _ h => nomatch h

theorem filterTraced_of_prepare {e' : Engine} (h : prepare d q e = (.ok (o, node, records), e')) :
    filterTraced d q e = runTraced d q o node records e' := by
  show Request.bind (prepare d q) (fun p => runTraced d q p.1 p.2.1 p.2.2) e = _
  rw [Request.bind, h]

/-- Trace counts obey flow conservation in every traced run that ends without failure. -/
theorem filterTraced_conserves {run : TracedRun} (h : (filterTraced d q e).1 = .ok run) :
    ∃ o node records, (prepare d q e).1 = .ok (o, node, records) ∧ run.Conserves node ∧
      run.statistics.total = records.length := by
  rcases hp : prepare d q e with ⟨_ | ⟨o, node, records⟩, e'⟩
  · have hrun : filterTraced d q e = Request.bind (prepare d q) (fun p => runTraced d q p.1 p.2.1 p.2.2) e := rfl
    rw [hrun, Request.bind, hp] at h
    cases h
  · rw [filterTraced_of_prepare hp] at h
    exact ⟨o, node, records, rfl, (runTraced_conserves e' trivial).2 run h⟩

/-- An engine without kept trees checks an expression that has a key, and changes nothing but what it keeps. -/
theorem Unused.validate_run {x depth : Value} (he : e.Unused) (hdepth : e.depthOf depth = depth)
    {bytes : List UInt8} (hbytes : e.expressionBytes x depth = .ok bytes) (hcheck : e.check x depth = .ok node) :
    ∃ expressions, validate x depth e = (.ok node, { e with expressions }) := by
  have hget : e.expressions.get (e.environment.digest bytes) =
      (none, { e.expressions with misses := e.expressions.misses + 1 }) := by
    simp [Recent.get, Recent.find?, he.entries]
  rw [Engine.validate_run, hdepth, expressionKey_of_bytes hbytes]
  simp only [hget, hcheck]
  exact ⟨_, rfl⟩

theorem resolve_of_validate {e' : Engine} (ho : Options.resolve e.defaults q.given q.overrides = .ok o)
    (hvalid : validate q.expression (.int o.maxDepth) e = (.ok node, e')) : resolve q e = (.ok (o, node), e') := by
  have hoptions : options q.given q.overrides e = (.ok o, e) := congrArg (·, e) ho
  rw [resolve, ok_bind_run hoptions, ok_bind_run hvalid]
  rfl

theorem prepare_of_validate {e' : Engine} (ho : Options.resolve e.defaults q.given q.overrides = .ok o)
    (hvalid : validate q.expression (.int o.maxDepth) e = (.ok node, e')) (hd : d.records = .ok records) :
    prepare d q e = (.ok (o, node, records), e') := by
  rw [prepare, ok_bind_run (resolve_of_validate ho hvalid), hd]
  rfl

/-- A query with two operators. -/
def betweenQuery : Query := ⟨.ofPairs [("f", .ofPairs [("$gt", .int 0), ("$lt", .int 2)])], .options {}, []⟩

def betweenNode : Node :=
  .field "f" (.tests [.apply "$gt" (.value (.int 0)) (.int 0), .apply "$lt" (.value (.int 2)) (.int 2)])

theorem filterTraced_conserves_between : ∃ e, IsStandard e ∧ ∃ run,
    (filterTraced (.stream .onDemand oneAndTwo) betweenQuery e).1 = .ok run ∧
      ∃ o node records, (prepare (.stream .onDemand oneAndTwo) betweenQuery e).1 = .ok (o, node, records) ∧
        run.Conserves node ∧ run.statistics.total = records.length := by
  obtain ⟨e, he⟩ := exists_isStandard
  have hm := make?_made he
  have hbytes : ∃ bytes, e.expressionBytes betweenQuery.expression (.int 3) = .ok bytes := by
    rw [expressionBytes, hm.table]
    exact Outcome.exists_eq_ok (by cbv)
  obtain ⟨bytes, hbytes⟩ := hbytes
  have hcheck : e.check betweenQuery.expression (.int 3) = .ok betweenNode := by
    obtain rfl := Except.ok.inj he
    rfl
  have hunused : e.Unused := ⟨hm.expressions, hm.room⟩
  obtain ⟨expressions, hvalid⟩ := hunused.validate_run rfl hbytes hcheck
  obtain ⟨run, hrun⟩ : ∃ run, (filterTraced (.stream .onDemand oneAndTwo) betweenQuery e).1 = .ok run := by
    have ho : Options.resolve e.defaults betweenQuery.given betweenQuery.overrides = .ok {} := by
      obtain rfl := Except.ok.inj he
      rfl
    rw [filterTraced_of_prepare (prepare_of_validate ho hvalid rfl)]
    obtain rfl := Except.ok.inj he
    exact ⟨_, rfl⟩
  exact ⟨e, he, run, hrun, filterTraced_conserves hrun⟩

end Engine
end Winnow
