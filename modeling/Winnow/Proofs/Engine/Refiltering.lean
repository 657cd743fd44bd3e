import Winnow.Proofs.Order.Sorting
import Winnow.Proofs.Engine.EarlyExit
/-! # Filtering what was filtered

A result that is filtered again with the same query stays as it is. Three things of a result make it so, and they
say what a call leaves alone: all of its records pass, they are in the order that is asked for, and there are no
more than the limit. Each holds of what a scan that stops early finds and of what is sorted and then cut. -/

namespace Winnow.Engine

variable {e e₀ : Engine} {o : Options} {node : Node} {d : Data} {q : Query} {records result : List Value}
  {t : Table} {settings : Settings} {shared : Bool} {environment : Environment} {now : Moment}

/-- Does a call leave the records alone: do all pass, in the order that is asked for and no more than the limit? -/
structure IsSettled (e : Engine) (o : Options) (node : Node) (result : List Value) : Prop where
  passes : ∀ record ∈ result, e.passes o node record = .ok true
  ordered : result.Pairwise fun a b => SortKey.compareRecords o.caseSensitive o.orderBy a b ≠ .gt
  limited : Scan.upTo o.limit result = result

theorem IsSettled.answer (h : e.IsSettled o node result) : e.answer o node result = .ok result := by
  have hdecides : e.Decides o node result fun _ => true := h.passes
  rw [hdecides.answer, sorted, List.filter_true, sortRecords_eq_self h.ordered, h.limited]

/-- Where the keys order the records, the answer of a call is settled. -/
theorem isSettled_of_answer (horders : SortKey.Orders o.caseSensitive o.orderBy records)
    (h : e.answer o node records = .ok result) : e.IsSettled o node result := by
  unfold Engine.answer at h
  split at h
  · next hempty =>
    obtain ⟨-, rfl⟩ := Scan.outcome_eq_ok.1 h
    obtain ⟨hpass, -, hlimit⟩ := Scan.found_spec (e.passes o node) records o.limit
    refine ⟨hpass, ?_, hlimit⟩
    rw [List.isEmpty_iff.1 hempty]
    exact List.pairwise_of_forall fun _ _ => nofun
  · obtain ⟨all, hall, rfl⟩ := Outcome.map_eq_ok.1 h
    obtain ⟨-, rfl⟩ := Scan.outcome_eq_ok.1 hall
    obtain ⟨hpass, hsub, -⟩ := Scan.found_spec (e.passes o node) records none
    rw [arrange_eq_upTo]
    have hcut := Scan.upTo_sublist o.limit (sortRecords o.orderBy o.caseSensitive
      (Scan.run (fun (_ : Unit) record => (e.passes o node record, ())) () none records).found)
    refine ⟨fun record hr => hpass record ?_, ?_, Scan.upTo_upTo ..⟩
    · exact (sortRecords_perm ..).mem_iff.1 (hcut.subset hr)
    · exact (sortRecords_pairwise (horders.subset hsub.subset)).sublist hcut

theorem exists_validate_of_filter (ho : Options.resolve e.defaults q.given q.overrides = .ok o)
    (h : (filter d q e).1 = .ok result) : ∃ node, (validate q.expression (.int o.maxDepth) e).1 = .ok node := by
  have hprepare := prepare_run d q e
  rw [ho] at hprepare
  rcases hv : validate q.expression (.int o.maxDepth) e with ⟨f | node, e'⟩ <;> simp only [hv] at hprepare
  · rw [filter_unprepared hprepare] at h
    cases h
  · exact ⟨node, rfl⟩

/-- On every engine that can come about, what filtering gives is given back when it is filtered again, also where it
stops before a record whose test fails. It gives something where the expression is valid and no test fails. -/
theorem filter_idempotent (hmake : Engine.make? settings t shared environment now = .ok e₀)
    (hreached : e₀.Reached e) (ho : Options.resolve e.defaults q.given q.overrides = .ok o)
    (hcache : o.enableCache = false) (hdebug : o.debug = false) (hd : d.records = .ok records)
    (horders : SortKey.Orders o.caseSensitive o.orderBy records) :
    (∀ result, (filter d q e).1 = .ok result →
      ∀ d', d'.records = .ok result → (filter d' q (filter d q e).2).1 = .ok result) ∧
    ∀ node, (validate q.expression (.int o.maxDepth) e).1 = .ok node →
      (∀ record ∈ records, ∃ b, e.passes o node record = .ok b) → ∃ result, (filter d q e).1 = .ok result := by
  have husable := hreached.usable hmake
  have hserves {node : Node} (hvalid : (validate q.expression (.int o.maxDepth) e).1 = .ok node) :
      Serving e q.expression (.int o.maxDepth) node e :=
    { husable.fits with expressions := serves_of_validate husable.room rfl hvalid }
  refine ⟨fun result hresult d' hd' => ?_, fun node hvalid hpass => ?_⟩
  · obtain ⟨node, hvalid⟩ := exists_validate_of_filter ho hresult
    obtain ⟨hserves', hanswer⟩ := filter_served ho hcache hdebug hd e (hserves hvalid)
    have hsettled := isSettled_of_answer horders (hanswer.symm.trans hresult)
    exact (filter_served ho hcache hdebug hd' _ hserves').2.trans hsettled.answer
  · obtain ⟨p, hp⟩ := exists_decides hpass
    obtain ⟨-, hanswer⟩ := filter_served ho hcache hdebug hd e (hserves hvalid)
    exact ⟨_, hanswer.trans hp.answer⟩

/-- The first of the ones among mixed records, by two keys. -/
def firstOne : Options := { limit := some 1, orderBy := [⟨"f", .descending⟩, ⟨"g", .ascending⟩] }

theorem filter_idempotent_firstOne : ∃ e, IsStandard e ∧ ∃ result,
    (filter (.stream .onDemand mixedRecords) ⟨fieldQuery (.int 1), .options firstOne, []⟩ e).1 = .ok result ∧
    (filter (.value 1 (.list result)) ⟨fieldQuery (.int 1), .options firstOne, []⟩
      (filter (.stream .onDemand mixedRecords) ⟨fieldQuery (.int 1), .options firstOne, []⟩ e).2).1 = .ok result := by
  obtain ⟨e, he⟩ := exists_isStandard
  have hm := make?_made he
  obtain ⟨bytes, hbytes⟩ := exists_bytes_ones he
  have hunused : e.Unused := ⟨hm.expressions, hm.room⟩
  have hvalid : (validate (fieldQuery (.int 1)) (.int 3) e).1 = .ok (fieldNode (.int 1)) :=
    (hunused.validate_eq rfl hbytes).trans (check_fieldQuery he _)
  have hpass : ∀ record ∈ mixedRecords, ∃ b, e.passes firstOne (fieldNode (.int 1)) record = .ok b := by
    obtain rfl := Except.ok.inj he
    intro record hr
    simp only [mixedRecords, List.mem_cons, List.not_mem_nil, or_false] at hr
    rcases hr with rfl | rfl | rfl | rfl | rfl <;> exact ⟨_, rfl⟩
  have h := filter_idempotent (q := ⟨fieldQuery (.int 1), .options firstOne, []⟩) (d := .stream .onDemand mixedRecords)
    he .start rfl rfl rfl rfl orders_mixedRecords
  obtain ⟨result, hresult⟩ := h.2 _ hvalid hpass
  exact ⟨e, he, result, hresult, h.1 result hresult (.value 1 (.list result)) rfl⟩

end Winnow.Engine
