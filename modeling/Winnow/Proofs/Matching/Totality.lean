import Mathlib
import Winnow.Matching.Match
import Winnow.Proofs.Expression.Plain
import Winnow.Proofs.Memo.Patterns
import Winnow.Proofs.Operator.Meaning
/-! # When matching gives an answer

A plain tree is matched without failure, whatever the record and the present are, but for tests that compute a
moment outside the calendar. `Node.trials` lists the tests that matching comes to; it fails exactly when one of
these overflows. -/

namespace Winnow

/-! ## Evaluations -/

namespace Evaluation

variable {α β : Type} {answer : String → Int → Outcome (Option Pattern.Program)}

theorem run_bind (e : Evaluation α) (f : α → Evaluation β) :
    (e >>= f).run answer = (e.run answer >>= fun a => (f a).run answer) := by
  induction e with
  | done r => cases r <;> rfl
  | ask source flags next ih =>
    show Evaluation.run answer (.ask source flags fun p => (next p).bind f) = _
    rw [run, run]
    split
    · next p _ => exact ih p
    · rfl

@[simp] theorem run_pure (a : α) : (pure a : Evaluation α).run answer = .ok a := rfl

theorem run_negation (e : Evaluation Bool) : e.negation.run answer = (e.run answer).map (!·) := by
  rw [negation, run_bind]
  cases e.run answer <;> rfl

/-- A chain of one test comes to what the test does. -/
theorem run_single (e : Evaluation Bool) :
    (do if ← e then return true else return false : Evaluation Bool).run answer = e.run answer := by
  rw [run_bind]
  rcases e.run answer with _ | _ | _ <;> rfl

/-- Where every test has an answer, some item passes when its answer says so. -/
theorem run_anyItem {test : α → Evaluation Bool} {p : α → Bool} {xs : List α}
    (h : ∀ x ∈ xs, (test x).run answer = .ok (p x)) : (anyItem test xs).run answer = .ok (xs.any p) := by
  induction xs with
  | nil => rfl
  | cons x xs ih =>
    rw [anyItem, run_bind, h x (List.mem_cons_self ..), Outcome.ok_bind, List.any_cons]
    cases p x with
    | true => rfl
    | false => exact ih fun y hy => h y (List.mem_cons_of_mem _ hy)

end Evaluation

/-! ## Outcomes -/

/-- Is the outcome an overflow under some condition, and else a result? -/
def TotalUnless (overflows : Prop) (x : Outcome Bool) : Prop :=
  overflows ∧ x = .error (.fault .overflow) ∨ ¬overflows ∧ ∃ b, x = .ok b

namespace TotalUnless

variable {P Q : Prop} {x y : Outcome Bool}

theorem ok (h : ¬P) (b : Bool) : TotalUnless P (.ok b) := .inr ⟨h, b, rfl⟩

theorem congr (h : TotalUnless P x) (hPQ : P ↔ Q) : TotalUnless Q x := by
  rwa [TotalUnless, ← hPQ]

theorem map (h : TotalUnless P x) (f : Bool → Bool) : TotalUnless P (x.map f) := by
  obtain ⟨hP, rfl⟩ | ⟨hP, b, rfl⟩ := h
  · exact .inl ⟨hP, rfl⟩
  · exact .ok hP (f b)

end TotalUnless

/-- The list, if the result is the one that lets matching go on. -/
def afterResult {γ : Type} (r : Outcome Bool) (b : Bool) (rest : List γ) : List γ :=
  match r with
  | .ok a => if a = b then rest else []
  | .error _ => []

@[simp] theorem afterResult_nil {γ : Type} (r : Outcome Bool) (b : Bool) :
    afterResult r b ([] : List γ) = [] := by
  unfold afterResult
  split
  · exact ite_self _
  · rfl

/-- A test of a value by an operator, by its key. -/
structure Trial where
  key : String
  operand : Operand
  actual : Value

/-- Does the built-in operator under the key compute a reading outside the calendar? -/
def Trial.Overflows (now : Moment) (u : Trial) : Prop :=
  ∃ b : Builtin, b.key = u.key ∧ b.Overflows now u.operand u.actual

/-- One step, and the rest if the step comes to the result that lets matching go on. -/
theorem TotalUnless.step {now : Moment} {trials rest : List Trial} {x : Outcome Bool}
    {f : Bool → Outcome Bool} (goesOn : Bool) (hx : TotalUnless (∃ u ∈ trials, u.Overflows now) x)
    (hrest : TotalUnless (∃ u ∈ rest, u.Overflows now) (f goesOn)) (hstop : ∃ b, f (!goesOn) = .ok b) :
    TotalUnless (∃ u ∈ trials ++ afterResult x goesOn rest, u.Overflows now) (x >>= f) := by
  obtain ⟨⟨u, hu, hover⟩, rfl⟩ | ⟨hP, b, rfl⟩ := hx
  · exact .inl ⟨⟨u, List.mem_append_left _ hu, hover⟩, rfl⟩
  by_cases hb : b = goesOn
  · subst hb
    refine hrest.congr ?_
    simp only [afterResult, if_true, List.mem_append, or_and_right, exists_or]
    exact (or_iff_right hP).symm
  · obtain rfl : b = !goesOn := by cases b <;> cases goesOn <;> simp_all
    refine .inr ⟨?_, hstop⟩
    rwa [afterResult, if_neg hb, List.append_nil]

/-! ## The tests that matching comes to -/

/-- The trials of a list of which matching looks at items up to the first that passes. -/
def untilPass (trials : Value → List Trial) (outcome : Value → Outcome Bool) : List Value → List Trial
  | [] => []
  | v :: vs => trials v ++ afterResult (outcome v) false (untilPass trials outcome vs)

section

variable (t : Terms) (limit : Int)

/-- What matching comes to when pattern sources are compiled within a length limit. -/
def Node.outcome (n : Node) (record : Value) : Outcome Bool :=
  (n.matches t Table.builtins record).run (compileAnswer limit)

def Test.outcome (test : Test) (actual : Value) : Outcome Bool :=
  (test.passes t Table.builtins actual).run (compileAnswer limit)

mutual

/-- The tests of values by operators that matching a record comes to, in order. -/
def Node.trials : Node → Value → List Trial
  | .all items _, record => allTrials items record
  | .any items, record => anyTrials items record
  | .not item, record => item.trials record
  | .field path condition, record => condition.trials (Path.resolve record (Path.segments path))
  | .anyProperty _, _ | .predicate _, _ => []
termination_by structural n => n

def allTrials : List Node → Value → List Trial
  | [], _ => []
  | n :: ns, record => n.trials record ++ afterResult (n.outcome t limit record) true (allTrials ns record)
termination_by structural ns => ns

def anyTrials : List Node → Value → List Trial
  | [], _ => []
  | n :: ns, record => n.trials record ++ afterResult (n.outcome t limit record) false (anyTrials ns record)
termination_by structural ns => ns

def Condition.trials : Condition → Value → List Trial
  | .literal _, _ | .anyOf _, _ => []
  | .tests ts, actual => testTrials ts actual
  | .nested node, actual => untilPass (fun v => node.trials v) (node.outcome t limit) actual.subrecords
termination_by structural c => c

def testTrials : List Test → Value → List Trial
  | [], _ => []
  | test :: rest, actual =>
      test.trials actual ++ afterResult (test.outcome t limit actual) true (testTrials rest actual)
termination_by structural ts => ts

def Test.trials : Test → Value → List Trial
  | .apply key operand _, actual => [⟨key, operand, actual⟩]
  | .negate condition _, actual => condition.trials actual
termination_by structural test => test

end

end

/-! ## Parts of a tree -/

section

variable {t : Terms} {limit : Int}

/-- What a test of literals comes to: an answer, as no comparator is asked. -/
theorem hitsLiteral_ok (ht : t.comparator = none) {l : Literal} (hl : l.IsPlain) (actual : Value) :
    ∃ b, (t.hitsLiteral l actual).run (compileAnswer limit) = .ok b := by
  unfold Terms.hitsLiteral
  split
  · next source hsource =>
    obtain ⟨p, hp⟩ := (hl source hsource).exists_answer t limit
    rw [Evaluation.run, hp]
    exact ⟨_, rfl⟩
  · rw [ht]
    exact ⟨_, rfl⟩

theorem anyItem_ok {α : Type} {test : α → Evaluation Bool} {xs : List α}
    (h : ∀ x ∈ xs, ∃ b, (test x).run (compileAnswer limit) = .ok b) :
    ∃ b, (Evaluation.anyItem test xs).run (compileAnswer limit) = .ok b := by
  induction xs with
  | nil => exact ⟨false, rfl⟩
  | cons x xs ih =>
    obtain ⟨b, hb⟩ := h x (List.mem_cons_self ..)
    rw [Evaluation.anyItem, Evaluation.run_bind, hb, Outcome.ok_bind]
    cases b with
    | true => exact ⟨true, rfl⟩
    | false => exact ih fun y hy => h y (List.mem_cons_of_mem _ hy)

theorem negation_ok {e : Evaluation Bool} (h : ∃ b, e.run (compileAnswer limit) = .ok b) :
    ∃ b, e.negation.run (compileAnswer limit) = .ok b := by
  obtain ⟨b, hb⟩ := h
  exact ⟨!b, by rw [Evaluation.run_negation, hb, Outcome.map_ok]⟩

theorem matchesLiteral_ok (ht : t.comparator = none) {l : Literal} (hl : l.IsPlain) (actual : Value) :
    ∃ b, (t.matchesLiteral l actual).run (compileAnswer limit) = .ok b := by
  unfold Terms.matchesLiteral
  split
  · exact negation_ok (hitsLiteral_ok ht hl actual)
  · exact hitsLiteral_ok ht hl actual

theorem matchesProperty_ok (ht : t.comparator = none) {l : Literal} (hl : l.IsPlain) (record : Value) :
    ∃ b, (t.matchesProperty l record).run (compileAnswer limit) = .ok b := by
  unfold Terms.matchesProperty
  split
  · exact ⟨false, rfl⟩
  have hhit (vs : List Value) :
      ∃ b, (Evaluation.anyItem (t.hitsLiteral l) vs).run (compileAnswer limit) = .ok b :=
    anyItem_ok fun v _ => hitsLiteral_ok ht hl v
  dsimp only
  split
  · exact negation_ok (hhit _)
  · exact hhit _

theorem TotalUnless.orMiss {overflows : Prop} {x : Outcome Bool} (h : MissesUnless overflows x) :
    TotalUnless overflows ((Evaluation.done x).orMiss.run (compileAnswer limit)) := by
  obtain ⟨hP, rfl⟩ | ⟨hP, h⟩ := h
  · exact .inl ⟨hP, rfl⟩
  · rcases x with e | b
    · refine .inr ⟨hP, false, ?_⟩
      rw [Evaluation.orMiss, if_pos (h e rfl)]
      rfl
    · exact .ok hP b

/-- A search asks for one pattern at most. -/
theorem searchTest_ok {actual : Value} {operand : Operand}
    (h : ∀ source, operand = .value (.text source) → Pattern.Compilable source) :
    ∃ b, (Builtin.searchTest t actual operand).orMiss.run (compileAnswer limit) = .ok b := by
  unfold Builtin.searchTest
  split
  · next s source =>
    obtain ⟨p, hp⟩ := (h source rfl).exists_answer t limit
    rw [Evaluation.orMiss, Evaluation.run, hp]
    exact ⟨_, rfl⟩
  · exact ⟨_, rfl⟩
  · exact ⟨_, rfl⟩

theorem builtin_total {b : Builtin} {operand : Operand} (h : b.IsPlain operand) (actual : Value) :
    TotalUnless (b.Overflows t.now operand actual)
      ((b.test t actual operand).orMiss.run (compileAnswer limit)) := by
  have hsearch (hb : b = .regex ∨ b = .search) :
      ∃ r, (Builtin.searchTest t actual operand).orMiss.run (compileAnswer limit) = .ok r := by
    refine searchTest_ok fun source hsource => ?_
    subst hsource
    rcases hb with rfl | rfl <;> exact h
  have hno (hb : b = .regex ∨ b = .search) : ¬b.Overflows t.now operand actual := by
    refine Builtin.not_overflows fun us range => ?_
    rcases hb with rfl | rfl <;> simp
  cases b with
  | regex => exact .inr ⟨hno (.inl rfl), hsearch (.inl rfl)⟩
  | search => exact .inr ⟨hno (.inr rfl), hsearch (.inr rfl)⟩
  | _ => exact .orMiss (Builtin.plainTest_misses t _ actual operand)

/-- A test by the built-in operator under a key. -/
theorem test_total {key : String} {operand : Operand} (h : ∀ b : Builtin, b.key = key → b.IsPlain operand)
    (actual : Value) :
    TotalUnless (∃ u ∈ [Trial.mk key operand actual], u.Overflows t.now)
      ((Table.builtins.test t key operand actual).run (compileAnswer limit)) := by
  simp only [List.mem_singleton, exists_eq_left, Trial.Overflows]
  unfold Table.test
  rcases hfind : Table.builtins.find? key with _ | o
  · refine .ok ?_ false
    rintro ⟨b, rfl, -⟩
    rw [Table.find?_builtin] at hfind
    cases hfind
  rcases Table.find?_builtins hfind with ⟨b, rfl, rfl⟩ | ⟨hstructural, hrule⟩
  · refine (builtin_total (h b rfl) actual).congr ⟨fun hb => ⟨b, rfl, hb⟩, ?_⟩
    rintro ⟨b', hb', hover⟩
    exact Builtin.key_inj hb' ▸ hover
  · simp only [OperatorInfo.test, hrule]
    refine .ok ?_ false
    rintro ⟨b, rfl, -⟩
    rw [Table.find?_builtin] at hfind
    obtain rfl := Option.some.inj hfind
    cases hstructural

/-- A list of which matching looks at items up to the first that passes. -/
theorem anyItem_total {trials : Value → List Trial} {test : Value → Evaluation Bool} {vs : List Value}
    (h : ∀ v ∈ vs, TotalUnless (∃ u ∈ trials v, u.Overflows t.now) ((test v).run (compileAnswer limit))) :
    TotalUnless (∃ u ∈ untilPass trials (fun v => (test v).run (compileAnswer limit)) vs, u.Overflows t.now)
      ((Evaluation.anyItem test vs).run (compileAnswer limit)) := by
  induction vs with
  | nil => exact .ok (by simp [untilPass]) false
  | cons v vs ih =>
    rw [Evaluation.anyItem, Evaluation.run_bind]
    exact .step false (h v (List.mem_cons_self ..)) (ih fun w hw => h w (List.mem_cons_of_mem _ hw))
      ⟨true, rfl⟩

mutual

theorem Node.matches_total (ht : t.comparator = none) (n : Node) (h : n.IsPlain) (record : Value) :
    TotalUnless (∃ u ∈ n.trials t limit record, u.Overflows t.now) (n.outcome t limit record) := by
  match n with
  | .all items _ => exact allMatch_total ht items h record
  | .any items => exact anyMatches_total ht items h record
  | .not item =>
    have hitem := item.matches_total ht h record
    rw [Node.outcome, Node.matches, Evaluation.run_negation]
    exact hitem.map _
  | .field path condition => exact condition.holds_total ht h _
  | .anyProperty l => exact .inr ⟨by simp [Node.trials], matchesProperty_ok ht h record⟩
termination_by structural n

theorem allMatch_total (ht : t.comparator = none) (ns : List Node) (h : AllPlain ns) (record : Value) :
    TotalUnless (∃ u ∈ allTrials t limit ns record, u.Overflows t.now)
      ((allMatch t Table.builtins ns record).run (compileAnswer limit)) := by
  match ns with
  | [] => exact .ok (by simp [allTrials]) true
  | n :: ns =>
    rw [allMatch, Evaluation.run_bind]
    exact .step true (n.matches_total ht h.1 record) (allMatch_total ht ns h.2 record) ⟨false, rfl⟩
termination_by structural ns

theorem anyMatches_total (ht : t.comparator = none) (ns : List Node) (h : AllPlain ns) (record : Value) :
    TotalUnless (∃ u ∈ anyTrials t limit ns record, u.Overflows t.now)
      ((anyMatches t Table.builtins ns record).run (compileAnswer limit)) := by
  match ns with
  | [] => exact .ok (by simp [anyTrials]) false
  | n :: ns =>
    rw [anyMatches, Evaluation.run_bind]
    exact .step false (n.matches_total ht h.1 record) (anyMatches_total ht ns h.2 record) ⟨true, rfl⟩
termination_by structural ns

theorem Condition.holds_total (ht : t.comparator = none) (c : Condition) (h : c.IsPlain) (actual : Value) :
    TotalUnless (∃ u ∈ c.trials t limit actual, u.Overflows t.now)
      ((c.holds t Table.builtins actual).run (compileAnswer limit)) := by
  match c with
  | .literal l => exact .inr ⟨by simp [Condition.trials], matchesLiteral_ok ht h actual⟩
  | .anyOf members =>
    exact .inr ⟨by simp [Condition.trials], anyItem_ok fun l hl => hitsLiteral_ok ht (h l hl) actual⟩
  | .tests ts => exact allPass_total ht ts h actual
  | .nested node => exact anyItem_total fun v _ => node.matches_total ht h v
termination_by structural c

theorem allPass_total (ht : t.comparator = none) (ts : List Test) (h : TestsPlain ts) (actual : Value) :
    TotalUnless (∃ u ∈ testTrials t limit ts actual, u.Overflows t.now)
      ((allPass t Table.builtins ts actual).run (compileAnswer limit)) := by
  match ts with
  | [] => exact .ok (by simp [testTrials]) true
  | test :: rest =>
    rw [allPass, Evaluation.run_bind]
    exact .step true (test.passes_total ht h.1 actual) (allPass_total ht rest h.2 actual) ⟨false, rfl⟩
termination_by structural ts

theorem Test.passes_total (ht : t.comparator = none) (test : Test) (h : test.IsPlain) (actual : Value) :
    TotalUnless (∃ u ∈ test.trials t limit actual, u.Overflows t.now) (test.outcome t limit actual) := by
  match test with
  | .apply key operand _ => exact test_total h actual
  | .negate condition _ =>
    have hcondition := condition.holds_total ht h actual
    rw [Test.outcome, Test.passes, Evaluation.run_negation]
    exact hcondition.map _
termination_by structural test

end

end

/-! ## Checked expressions -/

/-- With the built-in operators, a checked expression that is no function is matched with an answer exactly when
no test that matching comes to computes a moment outside the calendar. Such a test ends matching by an
overflow. -/
theorem validate_matches_total_iff {functions : Functions} {depth expression : Value}
    (hexpression : ∀ name, expression ≠ .callable (.function name)) {n : Node}
    (hn : validate Table.builtins functions depth expression = .ok n) {t : Terms} (ht : t.comparator = none)
    {store : PatternStore} (hstore : store.Sound) (record : Value) :
    let outcome := ((n.matches t Table.builtins record).runState PatternStore.answer store).1
    ((∃ b, outcome = .ok b) ↔ ∀ u ∈ n.trials t store.maxLength record, ¬u.Overflows t.now) ∧
      (∀ u ∈ n.trials t store.maxLength record, u.Overflows t.now → outcome = .error (.fault .overflow)) := by
  intro outcome
  obtain ⟨limit, -, hcheck⟩ := Outcome.bind_eq_ok.1 hn
  have hplain : n.IsPlain := Grammar.check_plain rfl hexpression hcheck
  have houtcome : outcome = n.outcome t store.maxLength record := (hstore.runState _).1
  have htotal : TotalUnless (∃ u ∈ n.trials t store.maxLength record, u.Overflows t.now) outcome :=
    houtcome ▸ n.matches_total ht hplain record
  obtain ⟨⟨u, hu, hover⟩, hout⟩ | ⟨hno, b, hout⟩ := htotal
  · rw [hout]
    exact ⟨⟨fun ⟨b, hb⟩ => (nomatch hb), fun h => absurd hover (h u hu)⟩, fun _ _ _ => rfl⟩
  · rw [hout]
    have hnone : ∀ u ∈ n.trials t store.maxLength record, ¬u.Overflows t.now :=
      fun u hu hover => hno ⟨u, hu, hover⟩
    exact ⟨⟨fun _ => hnone, fun _ => ⟨b, rfl⟩⟩, fun u hu hover => absurd hover (hnone u hu)⟩

/-- A query for the records of age. -/
def ageQuery : Value := testQuery .age (.ofPairs [("min", .int 18)])

/-- Its tree. -/
def ageNode : Node :=
  .field "f" (.tests [.apply Builtin.age.key (.age ⟨some (.int 18), none, .years⟩) (.ofPairs [("min", .int 18)])])

theorem validate_ageQuery : validate Table.builtins Functions.standard (.int 3) ageQuery = .ok ageNode := rfl

/-- The last day of the calendar, at noon in universal time. -/
def lastNoon : Moment := ⟨.last, 12, 0, 0, 0, some 0, by decide, by decide⟩

theorem isReading_midnight : isReading 0 0 0 0 = true := by decide

/-- A moment whose clock is fourteen hours ahead. -/
def easternMoment : Moment :=
  ⟨⟨2000, 1, 1, by decide⟩, 0, 0, 0, 0, some (14 * hour), isReading_midnight, by decide⟩

def emptyStore : PatternStore := ⟨⟨1, .int 1, [], 0, 0, 0⟩, 1000⟩

theorem emptyStore_sound : emptyStore.Sound := Recent.Holds.of_nil rfl

theorem validate_matches_total_iff_of_age :
    ∃ b, ((ageNode.matches ⟨false, none, lastNoon, Functions.standard⟩ Table.builtins
      (.ofPairs [("f", .date ⟨2000, 1, 1, by decide⟩)])).runState PatternStore.answer emptyStore).1 =
        .ok b := by
  have hquery : ∀ name, ageQuery ≠ .callable (.function name) := fun _ h => nomatch h
  refine (validate_matches_total_iff hquery validate_ageQuery rfl emptyStore_sound _).1.2 fun u hu => ?_
  have hactual : Path.resolve (.ofPairs [("f", .date ⟨2000, 1, 1, by decide⟩)]) (Path.segments "f") =
      .date ⟨2000, 1, 1, by decide⟩ := rfl
  simp only [ageNode, Node.trials, Condition.trials, testTrials, Test.trials, afterResult_nil,
    List.append_nil,
    hactual, List.mem_singleton] at hu
  subst hu
  rintro ⟨b, hb, hover⟩
  obtain rfl := Builtin.key_inj (show b.key = Builtin.age.key from hb)
  have hstays : ¬lastNoon.PresentLeaves (.midnight ⟨2000, 1, 1, by decide⟩) := by decide +kernel
  exact hstays hover.2

/-- Where it is fourteen hours later, the calendar has already ended. -/
theorem validate_matches_not_total :
    ¬ ∀ (functions : Functions) (depth expression : Value) (n : Node),
      (∀ name, expression ≠ .callable (.function name)) →
      validate Table.builtins functions depth expression = .ok n →
      ∀ t : Terms, t.comparator = none → ∀ store : PatternStore, store.Sound → ∀ record : Value,
        ∃ b, ((n.matches t Table.builtins record).runState PatternStore.answer store).1 = .ok b := by
  intro hall
  have hquery : ∀ name, ageQuery ≠ .callable (.function name) := fun _ h => nomatch h
  obtain ⟨b, hb⟩ := hall Functions.standard (.int 3) ageQuery ageNode hquery validate_ageQuery
    ⟨false, none, lastNoon, Functions.standard⟩ rfl emptyStore emptyStore_sound
    (.ofPairs [("f", .moment easternMoment)])
  have hover : ((ageNode.matches ⟨false, none, lastNoon, Functions.standard⟩ Table.builtins
      (.ofPairs [("f", .moment easternMoment)])).runState PatternStore.answer emptyStore).1 =
      .error (.fault .overflow) := rfl
  rw [hover] at hb
  cases hb

end Winnow
