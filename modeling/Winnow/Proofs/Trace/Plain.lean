import Winnow.Trace.Match
/-! # Tracing only observes

Traced matching without its notes is matching: it asks the same questions in the same order and comes to the
same outcome, whatever addresses hold the same object. So a tracer that reads records one after the other
answers as a plain matcher does, and leaves the same compiled patterns behind. -/

namespace Winnow

namespace Evaluation

variable {α β γ : Type}

theorem bind_done (e : Evaluation α) : (e >>= fun a => pure a) = e := by
  induction e with
  | done outcome => cases outcome <;> rfl
  | ask source flags next ih => exact congrArg (ask source flags) (funext ih)

end Evaluation

namespace Traced

variable {α β σ : Type}

/-- The evaluation without the notes. -/
def plain : Traced α → Evaluation α
  | done outcome => .done outcome
  | ask source flags next => .ask source flags fun p => (next p).plain
  | note _ rest => rest.plain

@[simp] theorem plain_pure (a : α) : (pure a : Traced α).plain = pure a := rfl

@[simp] theorem plain_bind (t : Traced α) (f : α → Traced β) :
    (t >>= f).plain = t.plain >>= fun a => (f a).plain := by
  induction t with
  | done outcome => cases outcome <;> rfl
  | ask source flags next ih => exact congrArg (Evaluation.ask source flags) (funext ih)
  | note event rest ih => exact ih

@[simp] theorem plain_untraced (e : Evaluation α) : (untraced e).plain = e := by
  induction e with
  | done outcome => rfl
  | ask source flags next ih => exact congrArg (Evaluation.ask source flags) (funext ih)

@[simp] theorem plain_recordAt (part? : Option Address) (t : Traced Bool) :
    (recordAt part? t).plain = t.plain := by
  rw [recordAt, plain_bind]
  cases part? <;> exact t.plain.bind_done

@[simp] theorem plain_negation (t : Traced Bool) : t.negation.plain = t.plain.negation := by
  simp [negation, Evaluation.negation]

theorem plain_anyItem {test : α → Traced Bool} {test' : α → Evaluation Bool}
    (h : ∀ x, (test x).plain = test' x) (xs : List α) :
    (anyItem test xs).plain = Evaluation.anyItem test' xs := by
  induction xs with
  | nil => rfl
  | cons x xs ih =>
    rw [anyItem, Evaluation.anyItem, plain_bind, h]
    exact congrArg _ (funext fun b => by cases b <;> simp [ih])

/-- With notes or without, the same questions are asked of the same answers. -/
theorem runState_plain (answer : σ → String → Int → Outcome (Option Pattern.Program) × σ) (s : σ)
    (t : Traced α) : t.plain.runState answer s = ((t.runState answer s).1.1, (t.runState answer s).2) := by
  induction t generalizing s with
  | done outcome => rfl
  | ask source flags next ih =>
    rw [plain, Evaluation.runState, runState]
    rcases answer s source flags with ⟨_ | p, s⟩
    · rfl
    · exact ih p s
  | note event rest ih => exact ih s

end Traced

/-! ## Parts of tests -/

namespace Ledger

variable {l : Ledger} {p : Address} {i : Nat}

/-- Has every map of operators below an address as many parts as tests, if it has any? -/
def Fits (l : Ledger) (p : Address) (testsAt? : Address → Option (List Test)) : Prop :=
  ∀ rest ts parts, testsAt? rest = some ts → l.testParts? (p ++ rest) = some parts →
    parts.length = ts.length

/-- Is that so below the branches from one on? -/
def FitsFrom (l : Ledger) (p : Address) (i : Nat) (testsAt? : Nat → Address → Option (List Test)) : Prop :=
  ∀ j, l.Fits (p.branch (i + j)) (testsAt? j)

theorem Fits.branch {testsAt? : Address → Option (List Test)} (h : l.Fits p testsAt?) (i : Nat) :
    l.Fits (p.branch i) fun rest => testsAt? (i :: rest) := by
  intro rest ts parts hts hparts
  rw [Address.branch, List.append_assoc] at hparts
  exact h (i :: rest) ts parts hts hparts

theorem Fits.from_zero {testsAt? : Nat → Address → Option (List Test)}
    (h : ∀ j, l.Fits (p.branch j) (testsAt? j)) : l.FitsFrom p 0 testsAt? :=
  fun j => by rw [Nat.zero_add]; exact h j

theorem FitsFrom.head {testsAt? : Nat → Address → Option (List Test)} (h : l.FitsFrom p i testsAt?) :
    l.Fits (p.branch i) (testsAt? 0) := h 0

theorem FitsFrom.tail {testsAt? : Nat → Address → Option (List Test)} (h : l.FitsFrom p i testsAt?) :
    l.FitsFrom p (i + 1) fun j => testsAt? (j + 1) :=
  fun j => by rw [Nat.add_right_comm, Nat.add_assoc]; exact h (j + 1)

end Ledger

/-- Does a part that has parts for tests stand where a map of operators does, and has it one for each of its
tests? -/
def Place.Holds (q : Place) (p : Address) (testsAt? : Address → Option (List Test)) : Prop :=
  ∀ parts, q.tests? = some parts →
    ∃ rest ts, q.address = p ++ rest ∧ testsAt? rest = some ts ∧ parts = q.address.branches ts.length

theorem Place.Holds.of_branch {q : Place} {p : Address} {i : Nat} {testsAt? : Address → Option (List Test)}
    (h : q.Holds (p.branch i) fun rest => testsAt? (i :: rest)) : q.Holds p testsAt? := by
  intro parts hparts
  obtain ⟨rest, ts, haddress, hts, hlength⟩ := h parts hparts
  exact ⟨i :: rest, ts, by rw [haddress, Address.branch, List.append_assoc]; rfl, hts, hlength⟩

theorem Place.holds_of_none {q : Place} {p : Address} {testsAt? : Address → Option (List Test)}
    (h : q.tests? = none) : q.Holds p testsAt? := fun parts hparts => by cases h.symm.trans hparts

mutual

theorem Node.places_hold (n : Node) (p : Address) : ∀ q ∈ n.places p, q.Holds p n.testsAt? := by
  intro q hq
  match n with
  | .all items _ | .any items =>
    rcases List.mem_cons.1 hq with rfl | hq
    · exact Place.holds_of_none rfl
    · obtain ⟨j, h⟩ := placesAll_hold items p 0 q hq
      rw [Nat.zero_add] at h
      exact h.of_branch
  | .not item =>
    rcases List.mem_cons.1 hq with rfl | hq
    · exact Place.holds_of_none rfl
    · exact (item.places_hold _ q hq).of_branch
  | .field _ condition => exact condition.places_hold p q hq
  | .anyProperty _ | .predicate _ => cases List.mem_singleton.1 hq; exact Place.holds_of_none rfl
termination_by structural n

theorem placesAll_hold (ns : List Node) (p : Address) (i : Nat) :
    ∀ q ∈ placesAll ns p i, ∃ j, q.Holds (p.branch (i + j)) (testsAtAll? ns j) := by
  intro q hq
  match ns with
  | [] => cases hq
  | n :: ns =>
    rcases List.mem_append.1 hq with hq | hq
    · exact ⟨0, n.places_hold _ q hq⟩
    · obtain ⟨j, h⟩ := placesAll_hold ns p (i + 1) q hq
      exact ⟨j + 1, by rwa [Nat.add_right_comm, Nat.add_assoc] at h⟩
termination_by structural ns

theorem Condition.places_hold (c : Condition) (p : Address) : ∀ q ∈ c.places p, q.Holds p c.testsAt? := by
  intro q hq
  match c with
  | .nested node =>
    rcases List.mem_cons.1 hq with rfl | hq
    · exact Place.holds_of_none rfl
    · exact (node.places_hold _ q hq).of_branch
  | .tests ts =>
    cases List.mem_singleton.1 hq
    intro parts hparts
    refine ⟨[], ts, (List.append_nil p).symm, rfl, ?_⟩
    simp only at hparts
    split at hparts
    · cases hparts
    · exact (Option.some.inj hparts).symm
  | .literal _ | .anyOf _ => cases List.mem_singleton.1 hq; exact Place.holds_of_none rfl
termination_by structural c

end

/-- Whatever addresses hold the same object, a map of operators counts for as many parts as it has tests. -/
theorem Ledger.ofNode_fits (n : Node) (objects : Objects n) :
    (Ledger.ofNode n objects).Fits [] n.testsAt? := by
  intro p ts parts hts hparts
  obtain ⟨q, hq, hfound⟩ := List.exists_of_findSome?_eq_some hparts
  obtain ⟨hsame, htests⟩ : objects.map q.address = objects.map p ∧ q.tests? = some parts := by
    split at hfound
    · next h => exact ⟨eq_of_beq h, hfound⟩
    · cases hfound
  obtain ⟨rest, ts', haddress, hts', hlength⟩ := n.places_hold [] q (List.mem_reverse.1 hq) parts htests
  have heq : some ts' = some ts := by
    rw [← hts', ← hts, show rest = q.address from haddress.symm]
    exact objects.tests_eq _ _ hsame
  rw [hlength, Option.some.inj heq, Address.branches, List.length_map, List.length_range]

/-- A node that stands on both branches of a conjunction counts at the second. -/
example (literal : Literal) : ∃ objects : Objects (.all [.anyProperty literal, .anyProperty literal] false),
    (Ledger.ofNode _ objects).part? [0] = some [1] :=
  ⟨{ node := fun p => if p = [1] then [0] else p, map := id, tests_eq := fun _ _ h => congrArg _ h }, rfl⟩

/-! ## Matching without the notes -/

section

variable (t : Terms) (table : Table) {l : Ledger}

mutual

theorem Node.traced_plain (n : Node) {p : Address} (h : l.Fits p n.testsAt?) (record : Value) :
    (n.traced t table l p record).plain = n.matches t table record := by
  match n with
  | .all items _ =>
    rw [Node.traced, Node.matches, Traced.plain_recordAt]
    exact tracedAll_plain items (.from_zero h.branch) record
  | .any items =>
    rw [Node.traced, Node.matches, Traced.plain_recordAt]
    exact tracedAny_plain items (.from_zero h.branch) record
  | .not item =>
    rw [Node.traced, Node.matches, Traced.plain_recordAt, Traced.plain_negation,
      item.traced_plain (h.branch 0) record]
  | .field path condition =>
    rw [Node.traced, Node.matches, Traced.plain_recordAt]
    exact condition.traced_plain h _
  | .anyProperty _ | .predicate _ => rw [Node.traced, Node.matches, Traced.plain_recordAt, Traced.plain_untraced]
termination_by structural n

theorem tracedAll_plain (ns : List Node) {p : Address} {i : Nat} (h : l.FitsFrom p i (testsAtAll? ns))
    (record : Value) : (tracedAll t table l ns p i record).plain = allMatch t table ns record := by
  match ns with
  | [] => rfl
  | n :: ns =>
    rw [tracedAll, allMatch, Traced.plain_bind, n.traced_plain h.head record]
    refine congrArg _ (funext fun b => ?_)
    cases b
    · rfl
    · exact tracedAll_plain ns h.tail record
termination_by structural ns

theorem tracedAny_plain (ns : List Node) {p : Address} {i : Nat} (h : l.FitsFrom p i (testsAtAll? ns))
    (record : Value) : (tracedAny t table l ns p i record).plain = anyMatches t table ns record := by
  match ns with
  | [] => rfl
  | n :: ns =>
    rw [tracedAny, anyMatches, Traced.plain_bind, n.traced_plain h.head record]
    refine congrArg _ (funext fun b => ?_)
    cases b
    · exact tracedAny_plain ns h.tail record
    · rfl
termination_by structural ns

theorem Condition.traced_plain (c : Condition) {p : Address} (h : l.Fits p c.testsAt?) (actual : Value) :
    (c.traced t table l p actual).plain = c.holds t table actual := by
  match c with
  | .nested node =>
    exact Traced.plain_anyItem (fun v => node.traced_plain (h.branch 0) v) _
  | .tests ts =>
    have hwithin : l.FitsFrom p 0 (testsAtWithin? ts) := .from_zero h.branch
    rw [Condition.traced, Condition.holds]
    split
    · next parts hparts =>
      have hlength := h [] ts parts rfl (by rwa [List.append_nil])
      exact tracedTests_plain ts hwithin (by rw [List.length_map, hlength]) actual
    · exact tracedTests_plain ts hwithin (List.length_map ..) actual
  | .literal _ | .anyOf _ => rw [Condition.traced, Condition.holds, Traced.plain_untraced]
termination_by structural c

theorem tracedTests_plain (ts : List Test) {parts : List (Option Address)} {p : Address} {i : Nat}
    (h : l.FitsFrom p i (testsAtWithin? ts)) (hparts : parts.length = ts.length) (actual : Value) :
    (tracedTests t table l ts parts p i actual).plain = allPass t table ts actual := by
  match ts, parts with
  | [], _ => rw [tracedTests, allPass]; rfl
  | test :: rest, part? :: parts =>
    rw [tracedTests, allPass, Traced.plain_bind, Traced.plain_recordAt, test.traced_plain h.head actual]
    refine congrArg _ (funext fun b => ?_)
    cases b
    · rfl
    · exact tracedTests_plain rest h.tail (Nat.succ.inj hparts) actual
termination_by structural ts

theorem Test.traced_plain (test : Test) {p : Address} (h : l.Fits p test.testsAt?) (actual : Value) :
    (test.traced t table l p actual).plain = test.passes t table actual := by
  match test with
  | .apply .. => rw [Test.traced, Test.passes, Traced.plain_untraced]
  | .negate condition _ =>
    rw [Test.traced, Test.passes, Traced.plain_negation, condition.traced_plain h actual]
termination_by structural test

end

end

/-! ## Tracers -/

/-- What a test that keeps a state comes to on one item after the other, also on those after a failure, with
the state at the end. -/
def answers {σ α β : Type} (test : σ → α → Outcome β × σ) : σ → List α → List (Outcome β) × σ
  | s, [] => ([], s)
  | s, x :: xs =>
    let r := test s x
    let rest := answers test r.2 xs
    (r.1 :: rest.1, rest.2)

namespace Tracer

variable (table : Table)

/-- A tracer answers as matching does and stays what it is, but for its counts. -/
theorem test_eq (t : Terms) {s : PatternStore × Tracer} (h : s.2.ledger.Fits [] s.2.node.testsAt?)
    (record : Value) :
    (Tracer.test t table s record).1 = ((s.2.node.matches t table record).runState PatternStore.answer s.1).1 ∧
      (Tracer.test t table s record).2.1 =
        ((s.2.node.matches t table record).runState PatternStore.answer s.1).2 ∧
      (Tracer.test t table s record).2.2.node = s.2.node ∧
      (Tracer.test t table s record).2.2.ledger = s.2.ledger := by
  rw [← s.2.node.traced_plain t table h record, Traced.runState_plain]
  exact ⟨rfl, rfl, rfl, rfl⟩

theorem answers_eq_of_fits (calls : List (Terms × Value)) {s : PatternStore × Tracer}
    (h : s.2.ledger.Fits [] s.2.node.testsAt?) :
    let traced := answers (fun s (call : Terms × Value) => Tracer.test call.1 table s call.2) s calls
    let plain := answers (fun (store : PatternStore) (call : Terms × Value) =>
      (s.2.node.matches call.1 table call.2).runState PatternStore.answer store) s.1 calls
    traced.1 = plain.1 ∧ traced.2.1 = plain.2 := by
  induction calls generalizing s with
  | nil => exact ⟨rfl, rfl⟩
  | cons call calls ih =>
    obtain ⟨houtcome, hstore, hnode, hledger⟩ := test_eq table call.1 h call.2
    have hrest := ih (s := (Tracer.test call.1 table s call.2).2) (by rw [hnode, hledger]; exact h)
    rw [hnode, hstore] at hrest
    exact ⟨List.cons_eq_cons.2 ⟨houtcome, hrest.1⟩, hrest.2⟩

/-- Tracing only observes. Whatever addresses of a tree hold the same object, whether or not times are shown,
a tracer that tests records one after the other, each with terms of its own, gives the results and failures of
matching, and compiles the same patterns. -/
theorem answers_eq_plain (labels : Table) (timed : Bool) (node : Node) (objects : Objects node)
    (store : PatternStore) (calls : List (Terms × Value)) :
    let traced := answers (fun s (call : Terms × Value) => Tracer.test call.1 table s call.2)
      (store, Tracer.ofNode labels timed node objects) calls
    let plain := answers (fun (store : PatternStore) (call : Terms × Value) =>
      (node.matches call.1 table call.2).runState PatternStore.answer store) store calls
    traced.1 = plain.1 ∧ traced.2.1 = plain.2 :=
  answers_eq_of_fits table calls (Ledger.ofNode_fits node objects)

end Tracer
end Winnow
