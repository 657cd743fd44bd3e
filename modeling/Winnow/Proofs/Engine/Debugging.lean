import Winnow.Proofs.Options.DebugFlag
import Winnow.Proofs.Engine.TracedRuns
import Winnow.Proofs.Engine.Results
import Winnow.Proofs.Trace.Drawing
/-! # Filtering with a trace in the log

In debug mode `filter` tests all records and logs a drawing before it gives the result. A failure on the way is
a failure of the call: a test behind the last record that is wanted may fail, and an operand may be one that
cannot be shown. Where neither happens the trace changes nothing. -/

namespace Winnow

/-! ## The flag -/

/-- The query with debug mode set, whatever it said of it before. -/
def Query.debugging (q : Query) (b : Bool) : Query :=
  { q with overrides := q.overrides ++ [(.text OptionName.debug.plain, .bool b)] }

namespace Options

variable {o : Options} {b : Bool}

/-- The flag changes nothing else in the options of a call. -/
theorem resolve_debugging (defaults : Options) (q : Query) (b b' : Bool) :
    resolve defaults (q.debugging b).given (q.debugging b).overrides =
      (resolve defaults (q.debugging b').given (q.debugging b').overrides).map fun o => { o with debug := b } := by
  have hnonempty (c : Bool) :
      (q.overrides ++ [(Value.text OptionName.debug.plain, Value.bool c)]).isEmpty = false := by simp
  have hover (base : Options) : base.overEntries (q.overrides ++ [(.text OptionName.debug.plain, .bool b)]) =
      (base.overEntries (q.overrides ++ [(.text OptionName.debug.plain, .bool b')])).map
        fun o => { o with debug := b } := overEntries_debug q.overrides
  unfold resolve Query.debugging
  simp only [hnonempty, Bool.false_eq_true, if_false]
  cases q.given with
  | options o => exact hover o
  | value v =>
    cases v with
    | null => exact hover defaults
    | object entries => exact (congrArg _ (funext hover)).trans Outcome.map_bind.symm
    | _ => rfl

theorem debug_of_resolve {defaults : Options} {q : Query}
    (h : resolve defaults (q.debugging b).given (q.debugging b).overrides = .ok o) : o.debug = b := by
  rw [resolve_debugging defaults q b b] at h
  obtain ⟨_, -, rfl⟩ := Outcome.map_eq_ok.1 h
  rfl

end Options

namespace Engine
open Request

variable {base e e' : Engine} {o : Options} {node : Node} {records : List Value} {d : Data} {q : Query} {b : Bool}
  {J : Recent String Node → Prop} {K : ResultStore ResultKey (List Value) → Prop}

/-! ## Calls in debug mode -/

theorem prepare_run (d : Data) (q : Query) (e : Engine) : prepare d q e =
    match Options.resolve e.defaults q.given q.overrides with
    | .error f => (.error f, e)
    | .ok o =>
      match validate q.expression (.int o.maxDepth) e with
      | (.error f, e) => (.error f, e)
      | (.ok node, e) => (d.records.map fun records => (o, node, records), e) := by
  show Request.bind (Request.bind (done (Options.resolve e.defaults q.given q.overrides)) fun o =>
    Request.bind (validate q.expression (.int o.maxDepth)) fun node => pure (o, node)) _ e = _
  simp only [Request.bind, done]
  cases Options.resolve e.defaults q.given q.overrides with
  | error f => rfl
  | ok o =>
    rcases hv : validate q.expression (.int o.maxDepth) e with ⟨f | node, e'⟩ <;> simp only [hv]
    cases d.records <;> rfl

theorem resolve_of_prepare (h : prepare d q e = (.ok (o, node, records), e')) :
    Options.resolve e.defaults q.given q.overrides = .ok o := by
  rw [prepare_run] at h
  split at h
  · cases h
  · next o' ho =>
    split at h
    · cases h
    · obtain ⟨hrecords, -⟩ := Prod.mk.inj h
      obtain ⟨_, -, heq⟩ := Outcome.map_eq_ok.1 hrecords
      rw [ho, (Prod.mk.inj heq).1]

theorem prepare_debugging (d : Data) (q : Query) (e : Engine) (b b' : Bool) :
    prepare d (q.debugging b) e =
      ((prepare d (q.debugging b') e).1.map fun p => ({ p.1 with debug := b }, p.2),
        (prepare d (q.debugging b') e).2) := by
  rw [prepare_run, prepare_run, Options.resolve_debugging e.defaults q b b']
  cases Options.resolve e.defaults (q.debugging b').given (q.debugging b').overrides with
  | error f => rfl
  | ok o =>
    have hexpression (c : Bool) : (q.debugging c).expression = q.expression := rfl
    simp only [Outcome.map_ok, hexpression]
    rcases validate q.expression (.int o.maxDepth) e with ⟨f | node, e'⟩
    · rfl
    · cases d.records <;> rfl

theorem filter_unprepared {f : Failure} (hprepare : prepare d q e = (.error f, e')) :
    filter d q e = (.error f, e') := by
  show Request.bind (prepare d q) _ e = _
  rw [Request.bind, hprepare]

/-- In debug mode a call comes to the result of a traced run, if its trace can be drawn. -/
theorem filter_traced (hprepare : prepare d q e = (.ok (o, node, records), e')) (hdebug : o.debug = true) :
    (filter d q e).1 = (runTraced d q o node records e').1 >>= fun run => run.text.map fun _ => run.result := by
  show (Request.bind (prepare d q) _ e).1 = _
  rw [Request.bind, hprepare]
  simp only [hdebug, if_true]
  show (Request.bind (runTraced d q o node records) _ e').1 = _
  rw [Request.bind]
  rcases runTraced d q o node records e' with ⟨f | run, e''⟩
  · rfl
  · show (Request.bind (done run.text) _ e'').1 = _
    rw [Outcome.ok_bind]
    simp only [Request.bind, done]
    cases run.text <;> rfl

theorem filter_plain (hprepare : prepare d q e = (.ok (o, node, records), e')) (hdebug : o.debug = false)
    (hcache : o.enableCache = false) (hfits : SetUp e J K e') : (filter d q e).1 = e.answer o node records := by
  show (Request.bind (prepare d q) _ e).1 = _
  rw [Request.bind, hprepare]
  simp only [hdebug, Bool.false_eq_true, if_false, cached_of_uncached hcache]
  exact (measured_setUp evaluate_setUp e' hfits).2

/-! ## Traced scans -/

/-- Is the tracer one for a node, with patterns compiled as an engine compiles them? -/
structure Traces (base : Engine) (node : Node) (s : PatternStore × Tracer) : Prop where
  patterns : s.1.Sound ∧ s.1.maxLength = base.patterns.maxLength
  tree : s.2.node = node
  ledger : s.2.ledger.Fits [] node.testsAt?
  draws : Trace.Draws node.operands s.2.trace.walk

/-- A tracer that tests with the table of the engine comes to what a test without it does. -/
theorem Traces.test_eq {s : PatternStore × Tracer} (h : Traces base node s) (hs : SetUp base J K e)
    (htable : e.checkingTable = e.table) (record : Value) :
    (e.tracedTest o s record).1 = base.passes o node record ∧ Traces base node (e.tracedTest o s record).2 := by
  obtain ⟨hpatterns, rfl, hledger, hdraws⟩ := h
  obtain ⟨houtcome, hstore, hnode, hkept⟩ :=
    Tracer.test_eq e.table (o.terms e.now e.environment.functions) hledger record
  obtain ⟨hplain, hsound⟩ : (e.test o s.2.node s.1 record).1 = base.passes o s.2.node record ∧ _ :=
    hs.test_eq hpatterns record
  rw [tracedTest, htable]
  exact ⟨houtcome.trans hplain, {
    patterns := hstore ▸ hsound
    tree := hnode
    ledger := hkept ▸ hledger
    draws := hdraws.of_uncounted (Trace.uncounted_fill _ _) }⟩

/-- Tracing changes nothing in what a scan of all records finds, and its trace can be drawn exactly when the
tree can. -/
theorem scanTraced_found (htable : base.checkingTable = base.table) :
    Ensures (SetUp base J K) (scanTraced o node records) fun x =>
      x.map (·.1) = base.found o node none records ∧
        ∀ found trace, x = .ok (found, trace) →
          ∀ drawing : Drawing, (∃ ls, drawing.lines trace = .ok ls) ↔ node.IsDrawable := by
  intro e hs
  refine ⟨(scanTraced_setUp e hs).1, ?_⟩
  have hchecking : e.checkingTable = e.table := by
    rw [hs.table, ← htable, checkingTable, checkingTable, hs.table, hs.sharesTable]
  have hrun := Scan.run_alike (e.tracedTest o) (fun (_ : Unit) record => (base.passes o node record, ()))
    (R := fun s _ => Traces base node s) (fun _ _ record h => h.test_eq hs hchecking record) records
    (s := (e.patterns, .ofNode e.checkingTable o.showTimings node (.own node))) (t := ())
    ⟨⟨hs.patterns, hs.maxLength⟩, rfl, Ledger.ofNode_fits node _, Trace.ofNode_draws node⟩ none
  constructor
  · show Except.map _ (Except.map _ _) = _
    rw [Engine.found, ← hrun.outcome]
    cases (Scan.run (e.tracedTest o) _ none records).outcome <;> rfl
  · intro found trace hx drawing
    obtain ⟨_, -, heq⟩ := Outcome.map_eq_ok.1 hx
    obtain ⟨-, rfl⟩ := Prod.mk.inj heq
    exact hrun.state.draws.exists_lines_iff drawing

theorem exists_text_iff {run : TracedRun} :
    (∃ t, run.text = .ok t) ↔ ∃ ls, run.drawing.lines run.trace = .ok ls := by
  rw [TracedRun.text, Outcome.bind_pure_eq, Outcome.exists_map_eq_ok]

/-- A traced run arranges what a scan of all records finds. -/
theorem runTraced_found (d : Data) (q : Query) (node : Node) (records : List Value)
    (htable : base.checkingTable = base.table) (hcache : o.enableCache = false) :
    Ensures (SetUp base J K) (runTraced d q o node records) fun x =>
      x.map (·.result) = (base.found o node none records).map
          (arrange o.orderBy (o.limit.map Int.ofNat) o.caseSensitive) ∧
        ∀ run, x = .ok run → ((∃ t, run.text = .ok t) ↔ node.IsDrawable) := by
  have hprobe : probe o d q = pure false := by
    funext e
    simp only [probe, slot?, hcache, Bool.false_eq_true, if_false]
    rfl
  rw [runTraced, hprobe]
  refine Ensures.bind (ensures_pure (Q := (· = .ok false)) rfl) (fun hit _ => ?_) fun f hf => by cases hf
  refine Ensures.bind (measured_setUp (scanTraced_found htable)) ?_ ?_
  · rintro ⟨found, trace⟩ ⟨hfound, hdrawing⟩
    rw [← hfound]
    refine ensures_pure ⟨rfl, fun run hrun => ?_⟩
    cases hrun
    exact exists_text_iff.trans (hdrawing found trace rfl _)
  · rintro f ⟨hfound, -⟩
    rw [← hfound]
    exact ⟨rfl, fun run hrun => by cases hrun⟩

/-! ## Failures of calls without a trace -/

theorem exists_found_iff : (∃ all, base.found o node none records = .ok all) ↔
    ∀ record ∈ records, ∃ b, base.passes o node record = .ok b := by
  constructor
  · rintro ⟨all, hall⟩
    exact Scan.passes_of_failure_eq_none (Scan.outcome_eq_ok.1 hall).1
  · intro h
    obtain ⟨p, hp⟩ := exists_decides h
    exact ⟨_, hp.found none⟩

/-- When no test fails, the answer is what a scan of all records finds, arranged. -/
theorem answer_of_passes (h : ∀ record ∈ records, ∃ b, base.passes o node record = .ok b) :
    base.answer o node records = (base.found o node none records).map
      (arrange o.orderBy (o.limit.map Int.ofNat) o.caseSensitive) := by
  obtain ⟨p, hp⟩ := exists_decides h
  rw [hp.answer, hp.found, Outcome.map_ok, Scan.upTo_none, arrange_eq_upTo, sorted]

/-- An answer fails as the scan of all records does. -/
theorem found_of_answer {f : Failure} (h : base.answer o node records = .error f) :
    base.found o node none records = .error f := by
  unfold answer at h
  split at h
  · have hfailure := Scan.failure_of_wanted (Scan.outcome_eq_error.1 h)
    exact Scan.outcome_eq_error.2 hfailure
  · exact Outcome.map_eq_error.1 h

/-- A traced run whose trace is drawn comes to the answer exactly when the answer is a failure or nothing in the
run is. -/
theorem traced_eq_answer_iff {x : Outcome TracedRun}
    (hx : x.map (·.result) = (base.found o node none records).map
      (arrange o.orderBy (o.limit.map Int.ofNat) o.caseSensitive))
    (htext : ∀ run, x = .ok run → ((∃ t, run.text = .ok t) ↔ node.IsDrawable)) :
    (x >>= fun run => run.text.map fun _ => run.result) = base.answer o node records ↔
      ∀ result, base.answer o node records = .ok result →
        node.IsDrawable ∧ ∀ record ∈ records, ∃ b, base.passes o node record = .ok b := by
  rcases hfound : base.found o node none records with f | all
  · have hfails : ¬∀ record ∈ records, ∃ b, base.passes o node record = .ok b := by
      rw [← exists_found_iff, hfound]
      rintro ⟨all, hall⟩
      cases hall
    rw [hfound] at hx
    rw [Outcome.map_eq_error.1 hx, Outcome.error_bind]
    rcases hanswer : base.answer o node records with g | result
    · refine iff_of_true ?_ fun _ h => by cases h
      rw [← hfound, found_of_answer hanswer]
    · exact iff_of_false (fun h => by cases h) fun h => hfails (h result rfl).2
  · have hpass := exists_found_iff.1 ⟨all, hfound⟩
    rw [answer_of_passes hpass, ← hx]
    rw [hfound] at hx
    obtain ⟨run, rfl, -⟩ := Outcome.map_eq_ok.1 hx
    rw [Outcome.ok_bind, Outcome.map_ok]
    constructor
    · intro h result _
      obtain ⟨text, hok, -⟩ := Outcome.map_eq_ok.1 h
      exact ⟨(htext run rfl).1 ⟨text, hok⟩, hpass⟩
    · intro h
      obtain ⟨text, hok⟩ := (htext run rfl).2 (h _ rfl).1
      rw [hok, Outcome.map_ok]

theorem checkingTable_eq_table (h : e.sharesTable = true ∨ e.table.operators ≠ []) : e.checkingTable = e.table := by
  rcases h with hshared | hnonempty
  · rw [checkingTable, if_pos hshared]
  · exact checkingTable_of_nonempty hnonempty

/-! ## Agreement -/

variable {e₀ : Engine} {t : Table} {settings : Settings} {shared : Bool} {environment : Environment} {now : Moment}

/-- On an engine that tests with the table it checks with, and without kept results, debug mode leaves the outcome
of a call as it is exactly when this: if the call comes to a result without it, then the operands of its tree
can be shown, and none of its records makes the test fail, not even behind the last one that is wanted. -/
theorem filter_debugging_eq_iff (hmake : Engine.make? settings t shared environment now = .ok e₀)
    (hreached : e₀.Reached e) (htable : e.sharesTable = true ∨ e.table.operators ≠ [])
    (hcache : ∀ o, Options.resolve e.defaults (q.debugging false).given (q.debugging false).overrides = .ok o →
      o.enableCache = false) :
    (filter d (q.debugging true) e).1 = (filter d (q.debugging false) e).1 ↔
      ∀ o node records result, (prepare d (q.debugging false) e).1 = .ok (o, node, records) →
        (filter d (q.debugging false) e).1 = .ok result →
          node.IsDrawable ∧ ∀ record ∈ records, ∃ b, e.passes o node record = .ok b := by
  have htraced := prepare_debugging d q e true false
  have hfits := (prepare_fits (d := d) (keepsTrees_roomy (q.debugging false)) e (hreached.usable hmake).fits).1
  rcases hplain : prepare d (q.debugging false) e with ⟨f | ⟨o, node, records⟩, e'⟩ <;> rw [hplain] at htraced hfits
  · refine iff_of_true ?_ fun _ _ _ _ h => by cases h
    rw [filter_unprepared hplain, filter_unprepared htraced]
  · have ho := resolve_of_prepare hplain
    have hrun := (runTraced_found d (q.debugging true) (o := { o with debug := true }) node records
      (checkingTable_eq_table htable) (hcache o ho) e' hfits).2
    rw [filter_traced htraced rfl, filter_plain hplain (Options.debug_of_resolve ho) (hcache o ho) hfits]
    have hiff := traced_eq_answer_iff hrun.1 hrun.2
    refine Iff.trans hiff ?_
    constructor
    · rintro h _ _ _ result ⟨⟩ hresult
      exact h result hresult
    · intro h result hresult
      exact h o node records result rfl hresult

/-- A new engine prepares a query for a field, in debug mode or not. -/
theorem prepare_fieldQuery (he : IsStandard e) {v : Value} {bytes : List UInt8}
    (hbytes : e.expressionBytes (fieldQuery v) (.int 3) = .ok bytes) (limit : Option Nat)
    (hd : d.records = .ok records) :
    ∃ expressions, prepare d (Query.debugging ⟨fieldQuery v, .options { limit }, []⟩ b) e =
      (.ok ({ limit, debug := b }, fieldNode v, records), { e with expressions }) := by
  have hm := make?_made he
  have hunused : e.Unused := ⟨hm.expressions, hm.room⟩
  obtain ⟨expressions, hvalid⟩ := hunused.validate_run rfl hbytes (check_fieldQuery he v)
  exact ⟨expressions, prepare_of_validate rfl hvalid hd⟩

theorem filter_debugging_eq_on_ones : ∃ e, IsStandard e ∧
    (filter (.value 1 (.list oneAndTwo)) ((onesUpTo (some 1)).debugging true) e).1 =
      (filter (.value 1 (.list oneAndTwo)) ((onesUpTo (some 1)).debugging false) e).1 := by
  obtain ⟨e, he⟩ := exists_isStandard
  have hm := make?_made he
  have hbytes : ∃ bytes, e.expressionBytes (fieldQuery (.int 1)) (.int 3) = .ok bytes := by
    rw [expressionBytes, hm.table]
    exact Outcome.exists_eq_ok (by cbv)
  obtain ⟨bytes, hbytes⟩ := hbytes
  refine ⟨e, he, (filter_debugging_eq_iff he .start (.inr ?_) fun o ho => ?_).2 fun o node records result hp _ => ?_⟩
  · rw [hm.table]
    exact List.cons_ne_nil _ _
  · obtain rfl := Except.ok.inj ho
    rfl
  · obtain ⟨expressions, hprepare⟩ :=
      prepare_fieldQuery (d := .value 1 (.list oneAndTwo)) (b := false) he hbytes (some 1) rfl
    rw [onesUpTo, hprepare] at hp
    cases hp
    refine ⟨List.forall_mem_singleton.2 trivial, fun record hr => ?_⟩
    obtain rfl := Except.ok.inj he
    simp only [oneAndTwo, List.mem_cons, List.not_mem_nil, or_false] at hr
    rcases hr with rfl | rfl <;> exact ⟨_, rfl⟩

/-- A mapping with a date as its key. -/
def dated : Value := .object [(.date noon.date, .int 1)]

/-- Such a mapping is an operand like others, until it is to be shown. -/
theorem filter_debugging_ne : ∃ e, IsStandard e ∧
    (filter (.value 1 (.list [])) (Query.debugging ⟨fieldQuery dated, .options {}, []⟩ true) e).1 ≠
      (filter (.value 1 (.list [])) (Query.debugging ⟨fieldQuery dated, .options {}, []⟩ false) e).1 := by
  obtain ⟨e, he⟩ := exists_isStandard
  have hm := make?_made he
  have hbytes : ∃ bytes, e.expressionBytes (fieldQuery dated) (.int 3) = .ok bytes := by
    rw [expressionBytes, hm.table]
    exact Outcome.exists_eq_ok (by cbv)
  obtain ⟨bytes, hbytes⟩ := hbytes
  have hprepare (b : Bool) := prepare_fieldQuery (d := .value 1 (.list [])) (b := b) he hbytes none rfl
  obtain ⟨expressions, htraced⟩ := hprepare true
  obtain ⟨expressions', hplain⟩ := hprepare false
  refine ⟨e, he, ?_⟩
  have husable : e.Usable := ⟨hm.patterns, hm.room⟩
  have hfits : Fits e (fun _ => True) { e with expressions := expressions' } :=
    husable.fits.with_expressions trivial
  rw [filter_traced htraced rfl, filter_plain hplain rfl rfl hfits]
  obtain rfl := Except.ok.inj he
  intro h
  cases h

end Engine
end Winnow
