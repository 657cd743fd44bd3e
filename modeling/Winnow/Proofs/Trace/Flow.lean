import Mathlib.Algebra.Order.Ring.Nat
import Winnow.Proofs.Trace.Events
import Winnow.Proofs.Trace.Plain
/-! # What flows through a trace

Of the records that reach a conjunction each part gets those that the part before it lets pass, of those that
reach an alternative each part gets those that the part before it holds back. `Node.Conserves` says so of a
trace with counts. Matching one record keeps it, so counts of whole runs have it. -/

namespace Winnow

/-! ## Counts that fit together -/

/-- Do parts in a row get what the one before lets pass, with so much in and so much out? -/
def Series (inflow outflow : Nat) : List Trace → Prop
  | [] => outflow = inflow
  | c :: cs => c.entry.evaluated = inflow ∧ Series c.entry.matched outflow cs

/-- Do parts in a row get what the one before holds back, with so much in? -/
def Alternatives (inflow : Nat) : List Trace → Prop
  | [] => True
  | c :: cs =>
    c.entry.evaluated = inflow ∧ c.entry.matched ≤ inflow ∧ Alternatives (inflow - c.entry.matched) cs

/-- How many records the parts let pass together. -/
def matchedSum (ts : List Trace) : Nat := (ts.map (·.entry.matched)).sum

@[simp] theorem matchedSum_cons (c : Trace) (cs : List Trace) :
    matchedSum (c :: cs) = c.entry.matched + matchedSum cs := List.sum_cons

mutual

/-- Do the counts of a trace fit the node that it traces? -/
def Node.Conserves : Node → Trace → Prop
  | .all items _, .node e ts => Series e.evaluated e.matched ts ∧ AllConserve items ts
  | .any items, .node e ts =>
    Alternatives e.evaluated ts ∧ e.matched = matchedSum ts ∧ AllConserve items ts
  | .not item, .node e ts =>
    ∃ c, ts = [c] ∧ c.entry.evaluated = e.evaluated ∧ c.entry.matched ≤ e.evaluated ∧
      e.matched = e.evaluated - c.entry.matched ∧ item.Conserves c
  | .field _ condition, trace => condition.Conserves trace
  | .anyProperty _, .node _ ts | .predicate _, .node _ ts => ts = []
termination_by structural n => n

def AllConserve : List Node → List Trace → Prop
  | [], ts => ts = []
  | n :: ns, ts => ∃ c cs, ts = c :: cs ∧ n.Conserves c ∧ AllConserve ns cs
termination_by structural ns => ns

/-- A single test stands for its field, several are in a row below it. -/
def Condition.Conserves : Condition → Trace → Prop
  | .nested n, .node _ ts => ∃ c, ts = [c] ∧ n.Conserves c
  | .tests ts, .node e cs =>
    if ts.length = 1 then cs = [] else cs.length = ts.length ∧ Series e.evaluated e.matched cs
  | .literal _, .node _ ts | .anyOf _, .node _ ts => ts = []
termination_by structural c => c

end

/-! ## A trace filled with events -/

namespace Trace

variable {timed : Bool} {E E₁ E₂ : List Event}

theorem eventsAt_append {p : Address} : eventsAt p (E₁ ++ E₂) = eventsAt p E₁ ++ eventsAt p E₂ := List.filter_append ..

theorem eventsAt_eq_nil {p : Address} (h : ∀ e ∈ E, e.address ≠ p) : eventsAt p E = [] :=
  List.filter_eq_nil_iff.2 fun e he => by simpa using h e he

mutual

/-- Events are counted one after the other. -/
theorem fill_append (tr : Trace) (p : Address) :
    fill timed (E₁ ++ E₂) p tr = fill timed E₂ p (fill timed E₁ p tr) := by
  match tr with
  | .node e ts =>
    rw [fill, fill, fill, eventsAt_append, fillEntry, List.foldl_append, fillAll_append ts]
    rfl
termination_by structural tr

theorem fillAll_append (ts : List Trace) (p : Address) (i : Nat) :
    fillAll timed (E₁ ++ E₂) p i ts = fillAll timed E₂ p i (fillAll timed E₁ p i ts) := by
  match ts with
  | [] => rfl
  | c :: cs => rw [fillAll, fillAll, fillAll, fill_append c, fillAll_append cs]
termination_by structural ts

end

mutual

/-- Events elsewhere change nothing. -/
theorem fill_eq_self (tr : Trace) {p : Address} (h : ∀ e ∈ E, ¬p <+: e.address) :
    fill timed E p tr = tr := by
  match tr with
  | .node e ts =>
    have hnone : eventsAt p E = [] := eventsAt_eq_nil fun e he hp => h e he (hp ▸ List.prefix_refl _)
    rw [fill, hnone, fillAll_eq_self ts fun e he hbelow => h e he hbelow.below]
    rfl
termination_by structural tr

theorem fillAll_eq_self (ts : List Trace) {p : Address} {i : Nat} (h : ∀ e ∈ E, ¬p.BelowFrom i e.address) :
    fillAll timed E p i ts = ts := by
  match ts with
  | [] => rfl
  | c :: cs =>
    rw [fillAll, fill_eq_self c fun e he hi => h e he (.head hi),
      fillAll_eq_self cs fun e he hbelow => h e he hbelow.tail]
termination_by structural ts

end

/-- An event at a part counts for it, those below for the parts below it. -/
theorem fill_node {p : Address} {e : TraceEntry} {ts : List Trace} {b : Bool} (h : ∀ e ∈ E, p.BelowFrom 0 e.address) :
    fill timed (E ++ [⟨p, b⟩]) p (.node e ts) =
      .node (e.record b (if timed then some .unmeasured else none)) (fillAll timed E p 0 ts) := by
  have hbelow : eventsAt p E = [] := eventsAt_eq_nil fun e he hp => Address.BelowFrom.not_self (hp ▸ h e he)
  have hself : fillAll timed [⟨p, b⟩] p 0 (fillAll timed E p 0 ts) = fillAll timed E p 0 ts :=
    fillAll_eq_self _ fun e he => by
      cases List.mem_singleton.1 he
      exact Address.BelowFrom.not_self
  rw [fill, eventsAt_append, hbelow, fillAll_append, hself]
  simp [eventsAt, fillEntry]

@[simp] theorem fillAll_length (ts : List Trace) (p : Address) (i : Nat) :
    (fillAll timed E p i ts).length = ts.length := by
  induction ts generalizing i with
  | nil => rfl
  | cons c cs ih => rw [fillAll, List.length_cons, List.length_cons, ih]

/-- Events of a branch count for it alone, events of later ones do not. -/
theorem fillAll_cons {p : Address} {i : Nat} {c : Trace} {cs : List Trace} (h₁ : ∀ e ∈ E₁, p.branch i <+: e.address)
    (h₂ : ∀ e ∈ E₂, p.BelowFrom (i + 1) e.address) :
    fillAll timed (E₁ ++ E₂) p i (c :: cs) =
      fill timed E₁ (p.branch i) c :: fillAll timed E₂ p (i + 1) cs := by
  rw [fillAll, fill_append, fillAll_append, fill_eq_self _ fun e he => (h₂ e he).not_head,
    fillAll_eq_self cs fun e he hbelow => hbelow.not_head (h₁ e he)]

end Trace

/-! ## Parts of objects of their own -/

mutual

theorem Node.places_below (n : Node) (p : Address) : ∀ q ∈ n.places p, p <+: q.address := by
  intro q hq
  match n with
  | .all items _ | .any items =>
    rcases List.mem_cons.1 hq with rfl | hq
    · exact List.prefix_refl p
    · exact (placesAll_below items p 0 q hq).below
  | .not item =>
    rcases List.mem_cons.1 hq with rfl | hq
    · exact List.prefix_refl p
    · exact (p.prefix_branch 0).trans (item.places_below _ q hq)
  | .field _ condition => exact condition.places_below p q hq
  | .anyProperty _ | .predicate _ => cases List.mem_singleton.1 hq; exact List.prefix_refl p
termination_by structural n

theorem placesAll_below (ns : List Node) (p : Address) (i : Nat) :
    ∀ q ∈ placesAll ns p i, p.BelowFrom i q.address := by
  intro q hq
  match ns with
  | [] => cases hq
  | n :: ns =>
    rcases List.mem_append.1 hq with hq | hq
    · exact .head (n.places_below _ q hq)
    · exact (placesAll_below ns p (i + 1) q hq).tail
termination_by structural ns

theorem Condition.places_below (c : Condition) (p : Address) : ∀ q ∈ c.places p, p <+: q.address := by
  intro q hq
  match c with
  | .nested node =>
    rcases List.mem_cons.1 hq with rfl | hq
    · exact List.prefix_refl p
    · exact (p.prefix_branch 0).trans (node.places_below _ q hq)
  | .tests _ | .literal _ | .anyOf _ => cases List.mem_singleton.1 hq; exact List.prefix_refl p
termination_by structural c

end

/-- Every node has a part at its address. -/
theorem Node.exists_place (n : Node) (p : Address) : ∃ q ∈ n.places p, q.address = p := by
  cases n with
  | all _ _ | any _ | not _ => exact ⟨_, List.mem_cons_self .., rfl⟩
  | anyProperty _ | predicate _ => exact ⟨_, List.mem_singleton_self _, rfl⟩
  | field _ condition => cases condition <;> exact ⟨_, List.mem_cons_self .., rfl⟩

/-- Are the parts of a root that lie at or below an address those of a list? -/
structure Within (root : Node) (p : Address) (here : List Place) : Prop where
  mem : ∀ q ∈ here, q ∈ root.places []
  only : ∀ q ∈ root.places [], p <+: q.address → q ∈ here

/-- Are the parts of a root that lie below the branches from one on those of a list? -/
structure WithinFrom (root : Node) (p : Address) (i : Nat) (here : List Place) : Prop where
  mem : ∀ q ∈ here, q ∈ root.places []
  only : ∀ q ∈ root.places [], p.BelowFrom i q.address → q ∈ here

section

variable {root : Node} {p : Address} {i : Nat}

theorem Within.whole : Within root [] (root.places []) := ⟨fun _ => id, fun _ hq _ => hq⟩

/-- The part of a node lies above its branches. -/
theorem Within.branches {ns : List Node} (h : Within root p ({ address := p } :: placesAll ns p 0)) :
    WithinFrom root p 0 (placesAll ns p 0) := by
  refine ⟨fun q hq => h.mem q (List.mem_cons_of_mem _ hq), fun q hq hbelow => ?_⟩
  rcases List.mem_cons.1 (h.only q hq hbelow.below) with rfl | hmem
  · exact absurd hbelow Address.BelowFrom.not_self
  · exact hmem

theorem Within.branch {n : Node} (h : Within root p ({ address := p } :: n.places (p.branch 0))) :
    Within root (p.branch 0) (n.places (p.branch 0)) := by
  refine ⟨fun q hq => h.mem q (List.mem_cons_of_mem _ hq), fun q hq hbelow => ?_⟩
  rcases List.mem_cons.1 (h.only q hq ((p.prefix_branch 0).trans hbelow)) with rfl | hmem
  · exact absurd hbelow (p.not_branch_prefix 0)
  · exact hmem

theorem WithinFrom.head {n : Node} {ns : List Node} (h : WithinFrom root p i (placesAll (n :: ns) p i)) :
    Within root (p.branch i) (n.places (p.branch i)) := by
  refine ⟨fun q hq => h.mem q (List.mem_append_left _ hq), fun q hq hbelow => ?_⟩
  rcases List.mem_append.1 (h.only q hq (.head hbelow)) with hmem | hmem
  · exact hmem
  · exact absurd hbelow (placesAll_below ns p (i + 1) q hmem).not_head

theorem WithinFrom.tail {n : Node} {ns : List Node} (h : WithinFrom root p i (placesAll (n :: ns) p i)) :
    WithinFrom root p (i + 1) (placesAll ns p (i + 1)) := by
  refine ⟨fun q hq => h.mem q (List.mem_append_right _ hq), fun q hq hbelow => ?_⟩
  rcases List.mem_append.1 (h.only q hq hbelow.tail) with hmem | hmem
  · exact absurd (n.places_below _ q hmem) hbelow.not_head
  · exact hmem

end

namespace Ledger

variable {root : Node} {p a : Address}

/-- The ledger of objects of their own. -/
abbrev own (root : Node) : Ledger := .ofNode root (.own root)

theorem own_part? (h : ∃ q ∈ root.places [], q.address = p) : (own root).part? p = some p := by
  obtain ⟨q, hq, hp⟩ := h
  show ((root.places []).reverse.find? fun q => q.address == p).map (·.address) = some p
  obtain ⟨q', hfound⟩ := Option.isSome_iff_exists.1
    (List.find?_isSome.2 ⟨q, List.mem_reverse.2 hq, beq_iff_eq.2 hp⟩ :
      ((root.places []).reverse.find? fun q => q.address == p).isSome)
  have hp' := List.find?_some hfound
  rw [hfound]
  exact congrArg some (eq_of_beq hp')

theorem own_part?_eq_some (h : (own root).part? p = some a) : a = p ∧ ∃ q ∈ root.places [], q.address = p := by
  obtain ⟨q, hq, rfl⟩ := Option.map_eq_some_iff.1 h
  have hp := List.find?_some hq
  exact ⟨eq_of_beq hp, q, List.mem_reverse.1 (List.mem_of_find?_eq_some hq), eq_of_beq hp⟩

theorem own_testParts?_eq_some {parts : List Address} (h : (own root).testParts? p = some parts) :
    ∃ q ∈ root.places [], q.address = p ∧ q.tests? = some parts := by
  obtain ⟨q, hq, hfound⟩ := List.exists_of_findSome?_eq_some h
  split at hfound
  · next hp => exact ⟨q, List.mem_reverse.1 hq, eq_of_beq hp, hfound⟩
  · cases hfound

/-- What counts at or below an address has a part there, and counts for a part there. -/
theorem own_names (h : (own root).Names p a) : p <+: a ∧ ∃ q ∈ root.places [], p <+: q.address := by
  obtain ⟨rest, hpart | ⟨parts, hparts, ha⟩⟩ := h
  · obtain ⟨rfl, q, hq, hrest⟩ := own_part?_eq_some hpart
    exact ⟨List.prefix_append _ _, q, hq, hrest ▸ List.prefix_append _ _⟩
  · obtain ⟨q, hq, hrest, htests⟩ := own_testParts?_eq_some hparts
    obtain ⟨-, ts, -, -, rfl⟩ := root.places_hold [] q hq parts htests
    obtain ⟨i, -, rfl⟩ := List.mem_map.1 ha
    have hbelow : p <+: q.address := hrest ▸ List.prefix_append _ _
    exact ⟨hbelow.trans (q.address.prefix_branch i), q, hq, hbelow⟩

end Ledger

section

variable {root : Node} {p : Address} {i : Nat} {E : List Event}

theorem Named.below (h : Named (.own root) p E) : ∀ e ∈ E, p <+: e.address :=
  fun e he => (Ledger.own_names (h e he)).1

theorem NamedFrom.below (h : NamedFrom (.own root) p i E) : ∀ e ∈ E, p.BelowFrom i e.address :=
  fun e he => by
    obtain ⟨j, hj, hnames⟩ := h e he
    exact ⟨j, hj, (Ledger.own_names hnames).1⟩

/-- Nothing counts below the tests of a field. -/
theorem Within.not_names {tests? : Option (List Address)} {a : Address} (hp : Within root p [⟨p, tests?⟩]) :
    ¬(Ledger.own root).Names (p.branch i) a := by
  intro h
  obtain ⟨-, q, hq, hbelow⟩ := Ledger.own_names h
  cases List.mem_singleton.1 (hp.only q hq ((p.prefix_branch i).trans hbelow))
  exact p.not_branch_prefix i hbelow

end

/-- The parts for the tests of a field. -/
theorem Ledger.own_testParts? {root : Node} {p : Address} {tests? : Option (List Address)}
    (hp : Within root p [⟨p, tests?⟩]) : (own root).testParts? p = tests? := by
  have hall : ∀ q ∈ root.places [], q.address = p → q = ⟨p, tests?⟩ := fun q hq hqp =>
    List.mem_singleton.1 (hp.only q hq (hqp ▸ List.prefix_refl _))
  cases tests? with
  | none =>
    cases h : (own root).testParts? p with
    | none => rfl
    | some parts =>
      obtain ⟨q, hq, hqp, htests⟩ := own_testParts?_eq_some h
      rw [hall q hq hqp] at htests
      cases htests
  | some parts =>
    cases h : (own root).testParts? p with
    | none =>
      have hnone := List.findSome?_eq_none_iff.1 h ⟨p, some parts⟩
        (List.mem_reverse.2 (hp.mem _ (List.mem_singleton_self _)))
      simp [Objects.own] at hnone
    | some parts' =>
      obtain ⟨q, hq, hqp, htests⟩ := own_testParts?_eq_some h
      rw [hall q hq hqp] at htests
      exact htests.symm

/-! ## One record -/

/-- Does a trace count one record more, that passes or not? -/
structure CountsOne (b : Bool) (c c' : Trace) : Prop where
  evaluated : c'.entry.evaluated = c.entry.evaluated + 1
  matched : c'.entry.matched = c.entry.matched + b.toNat

theorem TraceEntry.record_matched (e : TraceEntry) (b : Bool) (elapsed : Option Duration) :
    (e.record b elapsed).matched = e.matched + b.toNat := by cases b <;> rfl

section

variable {timed b : Bool} {p : Address} {i : Nat} {E : List Event}

theorem CountsOne.of_fill {c : Trace} (h : ∀ e ∈ E, p.BelowFrom 0 e.address) :
    CountsOne b c (c.fill timed (E ++ [⟨p, b⟩]) p) := by
  obtain ⟨e, ts⟩ := c
  rw [Trace.fill_node h]
  exact ⟨rfl, e.record_matched b _⟩

variable {c c' : Trace} {cs cs' : List Trace} {inflow outflow : Nat}

/-- A record that a part lets pass reaches the next one. -/
theorem Series.pass (h : CountsOne true c c') (hin : c.entry.evaluated = inflow)
    (hrest : Series (c.entry.matched + 1) outflow cs') : Series (inflow + 1) outflow (c' :: cs') :=
  ⟨by rw [h.evaluated, hin], by rw [h.matched]; exact hrest⟩

/-- A record that a part holds back leaves the next ones as they are. -/
theorem Series.stop (h : CountsOne false c c') (hs : Series inflow outflow (c :: cs)) :
    Series (inflow + 1) outflow (c' :: cs) :=
  ⟨by rw [h.evaluated, hs.1], by rw [h.matched]; exact hs.2⟩

theorem Alternatives.stop (h : CountsOne true c c') (hs : Alternatives inflow (c :: cs)) :
    Alternatives (inflow + 1) (c' :: cs) := by
  obtain ⟨hin, hle, hrest⟩ := hs
  refine ⟨by rw [h.evaluated, hin], by rw [h.matched]; exact Nat.succ_le_succ hle, ?_⟩
  rw [h.matched]
  exact (Nat.add_sub_add_right inflow 1 c.entry.matched).symm ▸ hrest

theorem Alternatives.pass (h : CountsOne false c c') (hin : c.entry.evaluated = inflow)
    (hle : c.entry.matched ≤ inflow) (hrest : Alternatives (inflow - c.entry.matched + 1) cs') :
    Alternatives (inflow + 1) (c' :: cs') := by
  have hm : c'.entry.matched = c.entry.matched := h.matched
  refine ⟨by rw [h.evaluated, hin], by omega, ?_⟩
  rwa [hm, Nat.sub_add_comm hle]

end

section

variable {t : Terms} {table : Table} {root : Node} {timed : Bool}

/-- The tests of a field that have parts. -/
theorem tracedTests_conserves (ts : List Test) {p : Address} {i : Nat} {actual : Value} {b : Bool}
    {E : List Event} (hsilent : ∀ j a, ¬(Ledger.own root).Names (p.branch j) a)
    (h : (tracedTests t table (.own root) ts ((List.range' i ts.length).map fun j => some (p.branch j))
      p i actual).Comes b E)
    {cs : List Trace} (hlength : cs.length = ts.length) {inflow outflow : Nat}
    (hs : Series inflow outflow cs) :
    Series (inflow + 1) (outflow + b.toNat) (Trace.fillAll timed E p i cs) ∧
      ∀ e ∈ E, p.BelowFrom i e.address := by
  induction ts generalizing i b E cs inflow with
  | nil =>
    obtain rfl := List.length_eq_zero_iff.1 hlength
    rw [tracedTests] at h
    obtain ⟨rfl, rfl⟩ := Traced.comes_pure.1 h
    exact ⟨congrArg (· + 1) hs, List.forall_mem_nil _⟩
  | cons test rest ih =>
    obtain ⟨c, cs, rfl⟩ := List.exists_cons_of_length_eq_add_one hlength
    rw [List.length_cons, List.range'_succ, List.map_cons, tracedTests] at h
    obtain ⟨d, E₁, E₂, h₁, h₂, rfl⟩ := Traced.comes_bind.1 h
    obtain ⟨E', h', rfl⟩ := Traced.comes_recordAt.1 h₁
    obtain rfl : E' = [] :=
      List.eq_nil_iff_forall_not_mem.2 fun e he => hsilent i e.address (test.traced_named h' e he)
    have hcount : CountsOne d c (c.fill timed ([] ++ [⟨p.branch i, d⟩]) (p.branch i)) :=
      .of_fill (List.forall_mem_nil _)
    have hhead : ∀ e ∈ [] ++ [(⟨p.branch i, d⟩ : Event)], p.branch i <+: e.address := fun e he => by
      cases List.mem_singleton.1 he
      exact List.prefix_refl _
    cases d with
    | false =>
      obtain ⟨rfl, rfl⟩ := Traced.comes_pure.1 h₂
      rw [Trace.fillAll_cons hhead (List.forall_mem_nil _), Trace.fillAll_eq_self _ (List.forall_mem_nil _)]
      exact ⟨.stop hcount hs, fun e he => .head (hhead e he)⟩
    | true =>
      obtain ⟨hrest, hbelow⟩ := ih h₂ (Nat.succ.inj hlength) hs.2
      rw [Trace.fillAll_cons hhead hbelow]
      refine ⟨?_, fun e he => ?_⟩
      · exact .pass hcount hs.1 hrest
      · exact (List.mem_append.1 he).elim (fun he => .head (hhead e he)) fun he => (hbelow e he).tail

/-- Every item of a nested condition counts in the one part below it. -/
theorem anyItem_conserves {node : Node} {p : Address}
    (hnode : ∀ {v b E c}, (node.traced t table (.own root) (p.branch 0) v).Comes b E → node.Conserves c →
      node.Conserves (c.fill timed E (p.branch 0)))
    (vs : List Value) {b : Bool} {E : List Event}
    (h : (Traced.anyItem (fun v => node.traced t table (.own root) (p.branch 0) v) vs).Comes b E)
    {c : Trace} (hc : node.Conserves c) : node.Conserves (c.fill timed E (p.branch 0)) := by
  induction vs generalizing E c with
  | nil =>
    obtain ⟨-, rfl⟩ := Traced.comes_pure.1 h
    rwa [Trace.fill_eq_self c (List.forall_mem_nil _)]
  | cons v vs ih =>
    obtain ⟨d, E₁, E₂, h₁, h₂, rfl⟩ := Traced.comes_bind.1 h
    rw [Trace.fill_append]
    cases d with
    | false => exact ih h₂ (hnode h₁ hc)
    | true =>
      obtain ⟨-, rfl⟩ := Traced.comes_pure.1 h₂
      rw [Trace.fill_eq_self _ (List.forall_mem_nil _)]
      exact hnode h₁ hc

mutual

/-- Matching one record counts it at the node and keeps counts that fit. -/
theorem Node.traced_conserves (n : Node) {p : Address} (hp : Within root p (n.places p)) {record : Value}
    {b : Bool} {E : List Event} (h : (n.traced t table (.own root) p record).Comes b E) {c : Trace}
    (hc : n.Conserves c) :
    CountsOne b c (c.fill timed E p) ∧ n.Conserves (c.fill timed E p) := by
  have hpart : (Ledger.own root).part? p = some p := by
    obtain ⟨q, hq, hqp⟩ := n.exists_place p
    exact Ledger.own_part? ⟨q, hp.mem q hq, hqp⟩
  obtain ⟨e, ts⟩ := c
  match n with
  | .all items _ =>
    rw [Node.traced, hpart] at h
    obtain ⟨E', h', rfl⟩ := Traced.comes_recordAt.1 h
    have hbelow := (tracedAll_named items h').below
    obtain ⟨hs, hitems⟩ := tracedAll_conserves items hp.branches h' hc.2 hc.1
    refine ⟨.of_fill hbelow, ?_⟩
    rw [Trace.fill_node hbelow]
    exact ⟨e.record_matched b _ ▸ hs, hitems⟩
  | .any items =>
    rw [Node.traced, hpart] at h
    obtain ⟨E', h', rfl⟩ := Traced.comes_recordAt.1 h
    have hbelow := (tracedAny_named items h').below
    obtain ⟨hs, hsum, hitems⟩ := tracedAny_conserves items hp.branches h' hc.2.2 hc.1
    refine ⟨.of_fill hbelow, ?_⟩
    rw [Trace.fill_node hbelow]
    exact ⟨hs, by rw [e.record_matched, hc.2.1, hsum], hitems⟩
  | .not item =>
    rw [Node.traced, hpart] at h
    obtain ⟨E', h', rfl⟩ := Traced.comes_recordAt.1 h
    have h' := Traced.comes_negation.1 h'
    have hbelow : ∀ e ∈ E', p.BelowFrom 0 e.address := fun e he => .head ((item.traced_named h').below e he)
    obtain ⟨c, rfl, hin, hle, hout, hc⟩ := hc
    obtain ⟨hcount, hitem⟩ := item.traced_conserves hp.branch h' hc
    refine ⟨.of_fill hbelow, ?_⟩
    rw [Trace.fill_node hbelow]
    refine ⟨_, rfl, hcount.evaluated.trans (congrArg (· + 1) hin), ?_, ?_, hitem⟩
    all_goals
      rw [hcount.matched]
      cases b <;> simp [TraceEntry.record] <;> omega
  | .field path condition =>
    rw [Node.traced, hpart] at h
    obtain ⟨E', h', rfl⟩ := Traced.comes_recordAt.1 h
    obtain ⟨hbelow, hcond⟩ := condition.traced_conserves hp h' hc
    exact ⟨.of_fill hbelow, hcond⟩
  | .anyProperty _ | .predicate _ =>
    rw [Node.traced, hpart] at h
    obtain ⟨E', h', rfl⟩ := Traced.comes_recordAt.1 h
    obtain rfl := h'.of_untraced
    have hbelow : ∀ e ∈ ([] : List Event), p.BelowFrom 0 e.address := List.forall_mem_nil _
    refine ⟨.of_fill hbelow, ?_⟩
    rw [Trace.fill_node hbelow, show ts = [] from hc]
    rfl
termination_by structural n

theorem tracedAll_conserves (ns : List Node) {p : Address} {i : Nat}
    (hp : WithinFrom root p i (placesAll ns p i)) {record : Value} {b : Bool} {E : List Event}
    (h : (tracedAll t table (.own root) ns p i record).Comes b E) {cs : List Trace}
    (hcs : AllConserve ns cs) {inflow outflow : Nat} (hs : Series inflow outflow cs) :
    Series (inflow + 1) (outflow + b.toNat) (Trace.fillAll timed E p i cs) ∧
      AllConserve ns (Trace.fillAll timed E p i cs) := by
  match ns with
  | [] =>
    obtain rfl : cs = [] := hcs
    obtain ⟨rfl, rfl⟩ := Traced.comes_pure.1 h
    exact ⟨congrArg (· + 1) hs, rfl⟩
  | n :: ns =>
    obtain ⟨c, cs, rfl, hc, hcs⟩ := hcs
    obtain ⟨d, E₁, E₂, h₁, h₂, rfl⟩ := Traced.comes_bind.1 h
    have hhead := (n.traced_named h₁).below
    obtain ⟨hcount, hn⟩ := n.traced_conserves hp.head h₁ hc
    cases d with
    | false =>
      obtain ⟨rfl, rfl⟩ := Traced.comes_pure.1 h₂
      rw [Trace.fillAll_cons hhead (List.forall_mem_nil _), Trace.fillAll_eq_self _ (List.forall_mem_nil _)]
      exact ⟨.stop hcount hs, _, _, rfl, hn, hcs⟩
    | true =>
      obtain ⟨hrest, hns⟩ := tracedAll_conserves ns hp.tail h₂ hcs hs.2
      rw [Trace.fillAll_cons hhead (tracedAll_named ns h₂).below]
      exact ⟨.pass hcount hs.1 hrest, _, _, rfl, hn, hns⟩
termination_by structural ns

theorem tracedAny_conserves (ns : List Node) {p : Address} {i : Nat}
    (hp : WithinFrom root p i (placesAll ns p i)) {record : Value} {b : Bool} {E : List Event}
    (h : (tracedAny t table (.own root) ns p i record).Comes b E) {cs : List Trace}
    (hcs : AllConserve ns cs) {inflow : Nat} (hs : Alternatives inflow cs) :
    Alternatives (inflow + 1) (Trace.fillAll timed E p i cs) ∧
      matchedSum (Trace.fillAll timed E p i cs) = matchedSum cs + b.toNat ∧
      AllConserve ns (Trace.fillAll timed E p i cs) := by
  match ns with
  | [] =>
    obtain rfl : cs = [] := hcs
    obtain ⟨rfl, rfl⟩ := Traced.comes_pure.1 h
    exact ⟨trivial, rfl, rfl⟩
  | n :: ns =>
    obtain ⟨c, cs, rfl, hc, hcs⟩ := hcs
    obtain ⟨d, E₁, E₂, h₁, h₂, rfl⟩ := Traced.comes_bind.1 h
    have hhead := (n.traced_named h₁).below
    obtain ⟨hcount, hn⟩ := n.traced_conserves hp.head h₁ hc
    cases d with
    | false =>
      obtain ⟨hin, hle, hrest⟩ := hs
      obtain ⟨hs, hsum, hns⟩ := tracedAny_conserves ns hp.tail h₂ hcs hrest
      rw [Trace.fillAll_cons hhead (tracedAny_named ns h₂).below]
      refine ⟨.pass hcount hin hle hs, ?_, _, _, rfl, hn, hns⟩
      rw [matchedSum_cons, matchedSum_cons, hsum, hcount.matched]
      exact (Nat.add_assoc ..).symm
    | true =>
      obtain ⟨rfl, rfl⟩ := Traced.comes_pure.1 h₂
      rw [Trace.fillAll_cons hhead (List.forall_mem_nil _), Trace.fillAll_eq_self _ (List.forall_mem_nil _)]
      refine ⟨.stop hcount hs, ?_, _, _, rfl, hn, hcs⟩
      rw [matchedSum_cons, matchedSum_cons, hcount.matched]
      exact Nat.add_right_comm ..
termination_by structural ns

theorem Condition.traced_conserves (cond : Condition) {p : Address} (hp : Within root p (cond.places p))
    {actual : Value} {b : Bool} {E : List Event} (h : (cond.traced t table (.own root) p actual).Comes b E)
    {c : Trace} (hc : cond.Conserves c) :
    (∀ e ∈ E, p.BelowFrom 0 e.address) ∧ cond.Conserves (c.fill timed (E ++ [⟨p, b⟩]) p) := by
  obtain ⟨e, cs⟩ := c
  match cond with
  | .nested node =>
    obtain ⟨c, rfl, hc⟩ := hc
    have hnamed : Named (.own root) (p.branch 0) E := .of_anyItem (fun _ _ _ h => node.traced_named h) _ h
    have hbelow : ∀ e ∈ E, p.BelowFrom 0 e.address := fun e he => .head (hnamed.below e he)
    refine ⟨hbelow, ?_⟩
    rw [Trace.fill_node hbelow]
    exact ⟨_, rfl, anyItem_conserves (fun h hc => (node.traced_conserves hp.branch h hc).2) _ h hc⟩
  | .tests ts =>
    have hparts := Ledger.own_testParts? hp
    rw [Condition.traced, hparts] at h
    rw [Condition.Conserves] at hc
    by_cases hone : ts.length = 1
    · rw [if_pos hone] at h hc
      have hnone : E = [] := List.eq_nil_iff_forall_not_mem.2 fun e he => by
        rcases tracedTests_named ts h e he with hpart | ⟨j, hj⟩
        · obtain ⟨_, _, hnone⟩ := List.mem_map.1 hpart
          cases hnone
        · exact hp.not_names hj
      have hbelow : ∀ e ∈ E, p.BelowFrom 0 e.address := hnone ▸ List.forall_mem_nil _
      refine ⟨hbelow, ?_⟩
      rw [Trace.fill_node hbelow, Condition.Conserves, if_pos hone, hc]
      rfl
    · rw [if_neg hone] at h hc
      simp only [Address.branches, List.map_map, List.range_eq_range'] at h
      obtain ⟨hs, hbelow⟩ := tracedTests_conserves ts (fun j a => hp.not_names) h hc.1 hc.2
      refine ⟨hbelow, ?_⟩
      rw [Trace.fill_node hbelow, Condition.Conserves, if_neg hone, Trace.fillAll_length]
      exact ⟨hc.1, e.record_matched b _ ▸ hs⟩
  | .literal _ | .anyOf _ =>
    obtain rfl := Traced.Comes.of_untraced h
    have hbelow : ∀ e ∈ ([] : List Event), p.BelowFrom 0 e.address := List.forall_mem_nil _
    refine ⟨hbelow, ?_⟩
    rw [Trace.fill_node hbelow, show cs = [] from hc]
    rfl
termination_by structural cond

end

end

/-! ## Before the first record -/

namespace Trace

/-- Has no record reached any part? -/
def Untouched (c : Trace) : Prop := ∀ e ∈ c.walk, e.evaluated = 0 ∧ e.matched = 0

theorem entry_mem_walk (c : Trace) : c.entry ∈ c.walk := by
  cases c
  exact List.mem_cons_self ..

theorem mem_walkAll {e : TraceEntry} {cs : List Trace} : e ∈ walk.walkAll cs ↔ ∃ c ∈ cs, e ∈ c.walk := by
  induction cs with
  | nil => simp [walk.walkAll]
  | cons c cs ih => simp [walk.walkAll, ih]

namespace Untouched

variable {c : Trace} {cs : List Trace}

theorem evaluated (h : c.Untouched) : c.entry.evaluated = 0 := (h _ c.entry_mem_walk).1

theorem matched (h : c.Untouched) : c.entry.matched = 0 := (h _ c.entry_mem_walk).2

theorem node {e : TraceEntry} (he : e.evaluated = 0 ∧ e.matched = 0) (h : ∀ c ∈ cs, c.Untouched) :
    (Trace.node e cs).Untouched := by
  refine List.forall_mem_cons.2 ⟨he, fun e' he' => ?_⟩
  obtain ⟨c, hc, hmem⟩ := mem_walkAll.1 he'
  exact h c hc e' hmem

theorem series (h : ∀ c ∈ cs, c.Untouched) : Series 0 0 cs := by
  induction cs with
  | nil => rfl
  | cons c cs ih =>
    obtain ⟨hc, hcs⟩ := List.forall_mem_cons.1 h
    exact ⟨hc.evaluated, by rw [hc.matched]; exact ih hcs⟩

theorem alternatives (h : ∀ c ∈ cs, c.Untouched) : Alternatives 0 cs := by
  induction cs with
  | nil => trivial
  | cons c cs ih =>
    obtain ⟨hc, hcs⟩ := List.forall_mem_cons.1 h
    exact ⟨hc.evaluated, Nat.le_of_eq hc.matched, by rw [hc.matched]; exact ih hcs⟩

theorem matchedSum (h : ∀ c ∈ cs, c.Untouched) : matchedSum cs = 0 := by
  induction cs with
  | nil => rfl
  | cons c cs ih =>
    obtain ⟨hc, hcs⟩ := List.forall_mem_cons.1 h
    rw [matchedSum_cons, hc.matched, ih hcs]

end Untouched

variable (table : Table)

mutual

theorem ofNode_untouched (n : Node) : (ofNode table n).Untouched := by
  match n with
  | .all items _ | .any items => exact .node ⟨rfl, rfl⟩ (ofNodes_untouched items)
  | .not item => exact .node ⟨rfl, rfl⟩ (List.forall_mem_singleton.2 (ofNode_untouched item))
  | .field path condition => exact ofCondition_untouched path condition
  | .anyProperty _ | .predicate _ => exact .node ⟨rfl, rfl⟩ (List.forall_mem_nil _)
termination_by structural n

theorem ofNodes_untouched (ns : List Node) : ∀ c ∈ ofNodes table ns, c.Untouched := by
  match ns with
  | [] => exact List.forall_mem_nil _
  | n :: ns => exact List.forall_mem_cons.2 ⟨ofNode_untouched n, ofNodes_untouched ns⟩
termination_by structural ns

theorem ofCondition_untouched (path : String) (c : Condition) : (ofCondition table path c).Untouched := by
  match c with
  | .nested n => exact .node ⟨rfl, rfl⟩ (List.forall_mem_singleton.2 (ofNode_untouched n))
  | .tests [] | .tests [_] | .literal _ | .anyOf _ => exact .node ⟨rfl, rfl⟩ (List.forall_mem_nil _)
  | .tests (a :: b :: rest) =>
    refine .node ⟨rfl, rfl⟩ fun c hc => ?_
    obtain ⟨test, -, rfl⟩ := List.mem_map.1 hc
    exact .node ⟨rfl, rfl⟩ (List.forall_mem_nil _)
termination_by structural c

end

mutual

/-- The counts of a trace that has seen no record fit its node. -/
theorem ofNode_conserves (n : Node) : n.Conserves (ofNode table n) := by
  match n with
  | .all items _ => exact ⟨Untouched.series (ofNodes_untouched table items), ofNodes_conserve items⟩
  | .any items =>
    have h := ofNodes_untouched table items
    exact ⟨Untouched.alternatives h, (Untouched.matchedSum h).symm, ofNodes_conserve items⟩
  | .not item =>
    have h := ofNode_untouched table item
    exact ⟨_, rfl, h.evaluated, Nat.le_of_eq h.matched, by rw [h.matched]; rfl, ofNode_conserves item⟩
  | .field path condition => exact ofCondition_conserves path condition
  | .anyProperty _ | .predicate _ => rfl
termination_by structural n

theorem ofNodes_conserve (ns : List Node) : AllConserve ns (ofNodes table ns) := by
  match ns with
  | [] => rfl
  | n :: ns => exact ⟨_, _, rfl, ofNode_conserves n, ofNodes_conserve ns⟩
termination_by structural ns

theorem ofCondition_conserves (path : String) (c : Condition) : c.Conserves (ofCondition table path c) := by
  match c with
  | .nested n => exact ⟨_, rfl, ofNode_conserves n⟩
  | .tests [_] | .literal _ | .anyOf _ => rfl
  | .tests [] => exact ⟨rfl, rfl⟩
  | .tests (a :: b :: rest) =>
    refine ⟨List.length_map .., Untouched.series fun c hc => ?_⟩
    obtain ⟨test, -, rfl⟩ := List.mem_map.1 hc
    exact .node ⟨rfl, rfl⟩ (List.forall_mem_nil _)
termination_by structural c

end

end Trace

/-! ## No part lets more pass than reach it -/

/-- Do no more pass than reach? -/
def TraceEntry.Bounded (e : TraceEntry) : Prop := e.matched ≤ e.evaluated

namespace Trace

variable {timed : Bool} {E : List Event}

/-- Does no part let more pass than reach it? -/
def Bounded (c : Trace) : Prop := ∀ e ∈ c.walk, e.Bounded

theorem Untouched.bounded {c : Trace} (h : c.Untouched) : c.Bounded := fun e he => by
  obtain ⟨hevaluated, hmatched⟩ := h e he
  exact Nat.le_of_eq (hmatched.trans hevaluated.symm)

theorem bounded_node {e : TraceEntry} {ts : List Trace} :
    (node e ts).Bounded ↔ e.Bounded ∧ ∀ c ∈ ts, c.Bounded := by
  rw [Bounded, walk, List.forall_mem_cons]
  refine and_congr_right fun _ => ⟨fun h c hc e he => h e (mem_walkAll.2 ⟨c, hc, he⟩), fun h e he => ?_⟩
  obtain ⟨c, hc, hmem⟩ := mem_walkAll.1 he
  exact h c hc e hmem

theorem fillEntry_bounded {e : TraceEntry} (h : e.Bounded) (E : List Event) : (fillEntry timed E e).Bounded := by
  induction E generalizing e with
  | nil => exact h
  | cons event E ih =>
    refine ih ?_
    rw [TraceEntry.Bounded, TraceEntry.record_matched]
    exact Nat.add_le_add h (Bool.toNat_le _)

mutual

theorem fill_bounded (tr : Trace) (p : Address) (h : tr.Bounded) : (fill timed E p tr).Bounded := by
  match tr with
  | .node e ts =>
    obtain ⟨he, hts⟩ := bounded_node.1 h
    exact bounded_node.2 ⟨fillEntry_bounded he _, fillAll_bounded ts p 0 hts⟩
termination_by structural tr

theorem fillAll_bounded (ts : List Trace) (p : Address) (i : Nat) (h : ∀ c ∈ ts, c.Bounded) :
    ∀ c ∈ fillAll timed E p i ts, c.Bounded := by
  match ts with
  | [] => exact List.forall_mem_nil _
  | c :: cs =>
    obtain ⟨hc, hcs⟩ := List.forall_mem_cons.1 h
    exact List.forall_mem_cons.2 ⟨fill_bounded c _ hc, fillAll_bounded cs p (i + 1) hcs⟩
termination_by structural ts

end

end Trace

/-! ## A run -/

/-- Is it a tracer of a node, with objects of their own, that has counted so many records, so many of which
passed? -/
structure Tracer.Counted (n : Node) (evaluated matched : Nat) (tracer : Tracer) : Prop where
  node : tracer.node = n
  ledger : tracer.ledger = .own n
  evaluated : tracer.trace.entry.evaluated = evaluated
  matched : tracer.trace.entry.matched = matched
  conserves : n.Conserves tracer.trace
  bounded : tracer.trace.Bounded

theorem Tracer.ofNode_counted (table : Table) (timed : Bool) (node : Node) :
    Tracer.Counted node 0 0 (.ofNode table timed node (.own node)) where
  node := rfl
  ledger := rfl
  evaluated := (Trace.ofNode_untouched table node).evaluated
  matched := (Trace.ofNode_untouched table node).matched
  conserves := Trace.ofNode_conserves table node
  bounded := (Trace.ofNode_untouched table node).bounded

/-- A record that is tested without failure counts once. -/
theorem Tracer.Counted.test {node : Node} {evaluated matched : Nat} {t : Terms} {table : Table}
    {s s' : PatternStore × Tracer} {record : Value} {b : Bool} (h : s.2.Counted node evaluated matched)
    (hs : Tracer.test t table s record = (.ok b, s')) :
    s'.2.Counted node (evaluated + 1) (matched + b.toNat) := by
  obtain ⟨patterns, n, ledger, timed, trace⟩ := s
  obtain ⟨hnode, hledger, hevaluated, hmatched, hconserves, hbounded⟩ := h
  obtain rfl : n = node := hnode
  obtain rfl : ledger = .own n := hledger
  obtain ⟨hb, rfl⟩ := Prod.ext_iff.1 hs
  have hcomes := Traced.comes_of_runState hb
  obtain ⟨hcount, hconserves⟩ : CountsOne b trace (trace.fill timed _ []) ∧
    n.Conserves (trace.fill timed _ []) := Node.traced_conserves n .whole hcomes hconserves
  exact {
    node := rfl
    ledger := rfl
    evaluated := hcount.evaluated.trans (congrArg (· + 1) hevaluated)
    matched := hcount.matched.trans (congrArg (· + b.toNat) hmatched)
    conserves := hconserves
    bounded := Trace.fill_bounded _ _ hbounded }

end Winnow
