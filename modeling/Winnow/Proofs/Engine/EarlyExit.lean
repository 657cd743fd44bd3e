import Winnow.Proofs.EarlyExit
import Winnow.Proofs.Engine.Debugging
/-! # How far calls read

Without an order, every way to ask that stops at the `k`-th record that matches tests just the records up to that
one, in order, and takes no other from the source, which may go on for ever. It fails just when the test fails on
one of these records. All six of them run one scan on the records, on an engine in which validation has changed
nothing but the kept trees. -/

namespace Winnow.Engine

open Request

variable {e e₀ e' : Engine} {o : Options} {node : Node} {d : Data} {q : Query} {records seen : List Value} {k n : Nat}
  {t : Table} {settings : Settings} {shared : Bool} {environment : Environment} {now : Moment} {α β : Type}

/-- The store of patterns after tests of the records, one after the other. -/
def tested (e : Engine) (o : Options) (node : Node) (records : List Value) : PatternStore :=
  Scan.stateAfter (e.test o node) e.patterns records

/-- Does a call test just these records, take no other, and fail just when the test fails on one of them? -/
structure LooksAt (e : Engine) (o : Options) (node : Node) (seen : List Value) (answer : List Value → α)
    (x : Outcome α × Engine) : Prop where
  returns (h : Decided (e.passes o node) seen) : x.1 = .ok (answer (hits (e.passes o node) seen)) ∧
    x.2.recordsRead = e.recordsRead + seen.length ∧ x.2.patterns = e.tested o node seen
  fails (before : List Value) (r : Value) (rest : List Value) (f : Failure) (hseen : seen = before ++ r :: rest)
    (hbefore : Decided (e.passes o node) before) (hr : e.passes o node r = .error f) : x.1 = .error f ∧
    x.2.recordsRead = e.recordsRead + (before.length + 1) ∧ x.2.patterns = e.tested o node (before ++ [r])
  fails_iff : (∃ f, x.1 = .error f) ↔ ∃ r ∈ seen, ∃ f, e.passes o node r = .error f

/-! ## Calls as scans -/

/-- Does a call come to what a scan comes to, and leave the counts and patterns that the scan leaves? -/
structure Scans (e : Engine) (r : Scan PatternStore Value) (answer : List Value → α) (x : Outcome α × Engine) :
    Prop where
  outcome : x.1 = r.outcome.map answer
  recordsRead : x.2.recordsRead = e.recordsRead + r.read
  patterns : x.2.patterns = r.state

variable {answer : List Value → α} {r : Scan PatternStore Value} {x : Outcome α × Engine}

theorem Scans.looksAt (h : e.Scans r answer x)
    (hr : Scan.LooksAt (e.test o node) (e.passes o node) e.patterns seen r) : e.LooksAt o node seen answer x := by
  constructor
  case returns =>
    intro hseen
    rw [hr.ends hseen] at h
    exact ⟨h.outcome, h.recordsRead, h.patterns⟩
  case fails =>
    intro before r rest f hseen hbefore hf
    rw [hr.fails before r rest f hseen hbefore hf] at h
    exact ⟨h.outcome, h.recordsRead, h.patterns⟩
  case fails_iff =>
    by_cases hseen : Decided (e.passes o node) seen
    · rw [hr.ends hseen] at h
      refine iff_of_false ?_ ?_
      · rintro ⟨f, hf⟩
        cases h.outcome.symm.trans hf
      · rintro ⟨r, hmem, f, hf⟩
        obtain ⟨b, hb⟩ := hseen r hmem
        cases hb.symm.trans hf
    · obtain ⟨before, y, rest, f, rfl, hbefore, hy⟩ := exists_first_failure hseen
      rw [hr.fails before y rest f rfl hbefore hy] at h
      exact iff_of_true ⟨f, h.outcome⟩ ⟨y, List.mem_append_right _ List.mem_cons_self, f, hy⟩

/-- Has only the store of trees changed? -/
def SameButTrees (e e' : Engine) : Prop := ∃ expressions, e' = { e with expressions }

theorem SameButTrees.scan (h : e.SameButTrees e') (wanted : Option Nat) :
    e.Scans (e.scanOf o node wanted records) id (scan o node wanted records e') := by
  obtain ⟨expressions, rfl⟩ := h
  refine ⟨?_, rfl, rfl⟩
  show (e.scanOf o node wanted records).outcome = _
  cases (e.scanOf o node wanted records).outcome <;> rfl

theorem Scans.map {req : Request α} (h : e.Scans r answer (req e')) (g : α → β) :
    e.Scans r (g ∘ answer) ((req >>= fun a => pure (g a)) e') := by
  have hrun : (req >>= fun a => pure (g a)) e' = ((req e').1.map g, (req e').2) := by
    show Request.bind req (fun a => pure (g a)) e' = _
    rw [Request.bind]
    rcases req e' with ⟨_ | _, _⟩ <;> rfl
  rw [hrun]
  refine ⟨?_, h.recordsRead, h.patterns⟩
  rw [h.outcome]
  cases r.outcome <;> rfl

theorem Scans.measured {req : Request α} (h : e.Scans r answer (req e')) (operation : String) :
    e.Scans r answer (measured o operation req e') := by
  rw [Engine.measured]
  refine ⟨h.outcome, ?_, ?_⟩
  · by_cases hmonitored : o.enablePerformanceMonitoring
    · simp [hmonitored, track, h.recordsRead]
    · simp [hmonitored, h.recordsRead]
  · by_cases hmonitored : o.enablePerformanceMonitoring
    · simp [hmonitored, track, h.patterns]
    · simp [hmonitored, h.patterns]

/-- A validation that succeeds changes nothing but the kept trees. -/
theorem exists_validate_run {expression depth : Value} (h : (validate expression depth e).1 = .ok node) :
    ∃ e', validate expression depth e = (.ok node, e') ∧ e.SameButTrees e' := by
  have hrun := validate_run e expression depth
  rcases hkey : e.expressionKey expression (e.depthOf depth) with f | key <;> rw [hkey] at hrun
  · rw [hrun] at h
    cases h
  simp only at hrun
  rcases hget : e.expressions.get key with ⟨_ | kept, expressions⟩ <;> rw [hget] at hrun
  · rcases hcheck : e.check expression (e.depthOf depth) with f | fresh <;> rw [hcheck] at hrun <;> rw [hrun] at h
    · cases h
    · obtain rfl := Except.ok.inj h
      exact ⟨_, hrun, _, rfl⟩
  · rw [hrun] at h
    obtain rfl := Except.ok.inj h
    exact ⟨_, hrun, _, rfl⟩

/-! ## The ways to ask -/

/-- Do all ways to ask that stop at the `k`-th match test just these of the records? Filtering is meant without
kept results and without a trace. -/
structure AllLookAt (e : Engine) (q : Query) (o : Options) (node : Node) (k : Nat) (records seen : List Value) :
    Prop where
  filter (d : Data) (hd : d.records = .ok records) (hlimit : o.limit = some k) (hcache : o.enableCache = false)
    (hdebug : o.debug = false) : e.LooksAt o node seen id (Engine.filter d q e)
  lazily (d : Data) (hd : d.records = .ok records) (hlimit : o.limit = some k) :
    e.LooksAt o node seen id (filterLazily d q none e)
  arriving (hlimit : o.limit = some k) : e.LooksAt o node seen id (filterArriving (.stream .arriving records) q e)
  first (d : Data) (hd : d.records = .ok records) (n : Nat) (hpos : 1 ≤ n) (hmax : n ≤ Options.maxLimit)
    (hleast : least (some n) o.limit = some k) : e.LooksAt o node seen id (Engine.first d q (.int n) e)
  count (d : Data) (hd : d.records = .ok records) (hlimit : o.limit = some k) :
    e.LooksAt o node seen List.length (Engine.count d q e)
  anyMatch (d : Data) (hd : d.records = .ok records) (hk : k = 1) :
    e.LooksAt o node seen (!·.isEmpty) (Engine.anyMatch d q e)

/-- Without an order, the ways to ask are scans for as many records as are wanted. -/
theorem allLookAt_of_scan (ho : Options.resolve e.defaults q.given q.overrides = .ok o) (horder : o.orderBy = [])
    (hvalid : (validate q.expression (.int o.maxDepth) e).1 = .ok node)
    (hscan : Scan.LooksAt (e.test o node) (e.passes o node) e.patterns seen (e.scanOf o node (some k) records)) :
    e.AllLookAt q o node k records seen := by
  obtain ⟨e', hrun, hsame⟩ := exists_validate_run hvalid
  have hempty : o.orderBy.isEmpty = true := by rw [horder]; rfl
  have hreject : rejectOrder o = .ok () := by rw [rejectOrder, if_pos hempty]
  have hprepare {d : Data} (hd : d.records = .ok records) : prepare d q e = (.ok (o, node, records), e') :=
    prepare_of_validate ho hrun hd
  have hscans : e.Scans (e.scanOf o node (some k) records) id (scan o node (some k) records e') := hsame.scan _
  constructor
  case filter =>
    intro d hd hlimit hcache hdebug
    rw [Engine.filter, ok_bind_run (hprepare hd)]
    simp only [hdebug, Bool.false_eq_true, if_false, cached_of_uncached hcache, evaluate, hempty, if_true, hlimit]
    exact (hscans.measured _).looksAt hscan
  case lazily =>
    intro d hd hlimit
    rw [filterLazily_eq, ok_bind_run (hprepare hd)]
    simp only [hreject, lift_ok_bind, least_none, hlimit]
    exact hscans.looksAt hscan
  case arriving =>
    intro hlimit
    have harriving : (Data.stream .arriving records).arriving = .ok records := rfl
    rw [filterArriving_eq, ok_bind_run (resolve_of_validate ho hrun)]
    simp only [harriving, hreject, lift_ok_bind, least_none, hlimit]
    exact hscans.looksAt hscan
  case first =>
    intro d hd n hpos hmax hleast
    rw [Engine.first, readCount_int hpos hmax, lift_ok_bind, ok_bind_run (hprepare hd)]
    simp only [hempty, if_true, hleast]
    exact (hscans.measured _).looksAt hscan
  case count =>
    intro d hd hlimit
    rw [Engine.count, ok_bind_run (hprepare hd)]
    simp only [hlimit]
    exact ((hscans.map _).measured _).looksAt hscan
  case anyMatch =>
    intro d hd hk
    subst hk
    rw [Engine.anyMatch, ok_bind_run (hprepare hd)]
    exact ((hscans.map (!·.isEmpty)).measured _).looksAt hscan

/-- Without an order, a call that stops at the `k`-th match tests just the records up to it, of any source that
reaches so far; while there are fewer matches, and no end, it tests all that there are. -/
theorem calls_look_at (hmake : Engine.make? settings t shared environment now = .ok e₀) (hreached : e₀.Reached e)
    (ho : Options.resolve e.defaults q.given q.overrides = .ok o) (horder : o.orderBy = [])
    (hvalid : (validate q.expression (.int o.maxDepth) e).1 = .ok node) (hk : 1 ≤ k) (source : Stream'.Seq Value) :
    (∃ seen, UpTo (e.passes o node) k source seen ∧
      ∀ n, seen.length ≤ n → e.AllLookAt q o node k (source.take n) seen) ∨
    ∀ n, (source.take n).length = n ∧ (hits (e.passes o node) (source.take n)).length < k ∧
      e.AllLookAt q o node k (source.take n) (source.take n) := by
  have hfits := (hreached.usable hmake).fits
  have hstep (s : PatternStore) (record : Value) (hs : s.Sound ∧ s.maxLength = e.patterns.maxLength) :
      (e.test o node s record).1 = e.passes o node record ∧ (e.test o node s record).2.Sound ∧
        (e.test o node s record).2.maxLength = e.patterns.maxLength := hfits.test_eq hs record
  have hscan {source : Stream'.Seq Value} {seen : List Value} {n : Nat}
      (h : UpTo (e.passes o node) k source seen) (hn : seen.length ≤ n) :
      e.AllLookAt q o node k (source.take n) seen := by
    refine allLookAt_of_scan ho horder hvalid ?_
    exact Scan.run_looksAt hstep ⟨hfits.patterns, rfl⟩ h hn
  rcases exists_upTo (e.passes o node) hk source with ⟨seen, hseen⟩ | hfew
  · exact .inl ⟨seen, hseen, fun n hn => hscan hseen hn⟩
  · refine .inr fun n => ⟨(hfew n).1, (hfew n).2, ?_⟩
    have hall := hscan (.ended rfl (hfew n).2) (Nat.le_refl _)
    rwa [take_ofList, List.take_length] at hall

theorem exists_bytes_ones (he : IsStandard e) :
    ∃ bytes, e.expressionBytes (fieldQuery (.int 1)) (.int 3) = .ok bytes := by
  rw [expressionBytes, (make?_made he).table]
  exact Outcome.exists_eq_ok (by cbv)

/-- A source of ones that does not end. -/
def endlessOnes : Stream'.Seq Value := .ofStream (.const (.ofPairs [("f", .int 1)]))

theorem calls_look_at_ones : ∃ e, IsStandard e ∧
    ((∃ seen, UpTo (e.passes { limit := some 1 } (fieldNode (.int 1))) 1 endlessOnes seen ∧
      ∀ n, seen.length ≤ n → e.AllLookAt (onesUpTo (some 1)) { limit := some 1 } (fieldNode (.int 1)) 1
        (endlessOnes.take n) seen) ∨
    ∀ n, (endlessOnes.take n).length = n ∧
      (hits (e.passes { limit := some 1 } (fieldNode (.int 1))) (endlessOnes.take n)).length < 1 ∧
      e.AllLookAt (onesUpTo (some 1)) { limit := some 1 } (fieldNode (.int 1)) 1
        (endlessOnes.take n) (endlessOnes.take n)) := by
  obtain ⟨e, he⟩ := exists_isStandard
  have hm := make?_made he
  obtain ⟨bytes, hbytes⟩ := exists_bytes_ones he
  have hunused : e.Unused := ⟨hm.expressions, hm.room⟩
  have hvalid : (validate (fieldQuery (.int 1)) (.int 3) e).1 = .ok (fieldNode (.int 1)) :=
    (hunused.validate_eq rfl hbytes).trans (check_fieldQuery he _)
  exact ⟨e, he, calls_look_at (q := onesUpTo (some 1)) he .start rfl rfl hvalid (Nat.le_refl 1) endlessOnes⟩

/-- In debug mode, filtering reads on behind the first match. -/
theorem filter_debugging_reads_on : ∃ e, IsStandard e ∧
    UpTo (e.passes { limit := some 1, debug := true } (fieldNode (.int 1))) 1 (.ofList oneAndTwo)
      (oneAndTwo.take 1) ∧
    ¬e.LooksAt { limit := some 1, debug := true } (fieldNode (.int 1)) (oneAndTwo.take 1) id
      (Engine.filter (.stream .onDemand oneAndTwo) ((onesUpTo (some 1)).debugging true) e) := by
  obtain ⟨e, he⟩ := exists_isStandard
  obtain ⟨bytes, hbytes⟩ := exists_bytes_ones he
  obtain ⟨expressions, hprepare⟩ :=
    prepare_fieldQuery (d := .stream .onDemand oneAndTwo) (b := true) he hbytes (some 1) rfl
  have hread : (Engine.filter (.stream .onDemand oneAndTwo) ((onesUpTo (some 1)).debugging true) e).2.recordsRead =
      e.recordsRead + 2 := by
    rw [Engine.filter, onesUpTo, ok_bind_run hprepare]
    obtain rfl := Except.ok.inj he
    rfl
  have hpasses : e.passes { limit := some 1, debug := true } (fieldNode (.int 1)) (.ofPairs [("f", .int 1)]) =
      .ok true := by
    obtain rfl := Except.ok.inj he
    rfl
  refine ⟨e, he, ?_, fun h => ?_⟩
  · exact @UpTo.found _ _ _ _ [] _ (by rw [take_ofList]; rfl) hpasses rfl
  · have hone := (h.returns (List.forall_mem_singleton.2 ⟨true, hpasses⟩)).2.1
    have hlength : (oneAndTwo.take 1).length = 1 := rfl
    omega

end Winnow.Engine
