import Winnow.Proofs.Matching.Totality
import Winnow.Proofs.Operator.Reordered
/-! # Trees that agree

Matching looks at items one by one and stops at the first that decides, so two orders of the same items may
fail in one and not in the other. But where both come to an answer, it is the same. `Agree` says that of two
evaluations, and it goes through lists of which every item has a counterpart that agrees, in whatever order. -/

namespace Winnow

/-! ## Evaluations -/

namespace Evaluation

variable {α β : Type}

/-- Do evaluations that both come to an answer come to the same? -/
def Agree (limit : Int) (x y : Evaluation Bool) : Prop :=
  ∀ b c, x.run (compileAnswer limit) = .ok b → y.run (compileAnswer limit) = .ok c → b = c

variable {answer : String → Int → Outcome (Option Pattern.Program)} {limit : Int} {x y : Evaluation Bool}

theorem Agree.of_eq (h : x = y) : Agree limit x y := by
  subst h
  intro b c hb hc
  exact Except.ok.inj (hb.symm.trans hc)

theorem Agree.negation (h : Agree limit x y) : Agree limit x.negation y.negation := by
  intro b c hb hc
  rw [run_negation] at hb hc
  obtain ⟨a, ha, rfl⟩ := Outcome.map_eq_ok.1 hb
  obtain ⟨d, hd, rfl⟩ := Outcome.map_eq_ok.1 hc
  rw [h a d ha hd]

/-- Where some item passes, there is one that does; where none does, all were looked at. -/
theorem anyItem_eq_ok {test : α → Evaluation Bool} {xs : List α} {b : Bool}
    (h : (anyItem test xs).run answer = .ok b) :
    if b then ∃ x ∈ xs, (test x).run answer = .ok true else ∀ x ∈ xs, (test x).run answer = .ok false := by
  induction xs with
  | nil =>
    cases h
    exact fun x hx => nomatch hx
  | cons x xs ih =>
    rw [anyItem, run_bind] at h
    obtain ⟨a, ha, h⟩ := Outcome.bind_eq_ok.1 h
    cases a with
    | true =>
      cases h
      exact ⟨x, List.mem_cons_self .., ha⟩
    | false =>
      have hrest := ih h
      cases b with
      | true =>
        obtain ⟨y, hy, hpass⟩ := hrest
        exact ⟨y, List.mem_cons_of_mem _ hy, hpass⟩
      | false => exact List.forall_mem_cons.2 ⟨ha, hrest⟩

theorem Agree.anyItem {f : α → Evaluation Bool} {g : β → Evaluation Bool} {xs : List α} {ys : List β}
    (h : Paired (fun x y => Agree limit (f x) (g y)) xs ys) :
    Agree limit (Evaluation.anyItem f xs) (Evaluation.anyItem g ys) := by
  intro b c hb hc
  have hb := anyItem_eq_ok hb
  have hc := anyItem_eq_ok hc
  cases b <;> cases c
  case true.true | false.false => rfl
  case true.false =>
    obtain ⟨x, hx, hpass⟩ := hb
    obtain ⟨y, hy, hxy⟩ := h.1 x hx
    exact hxy _ _ hpass (hc y hy)
  case false.true =>
    obtain ⟨y, hy, hpass⟩ := hc
    obtain ⟨x, hx, hxy⟩ := h.2 y hy
    exact hxy _ _ (hb x hx) hpass

end Evaluation

open Evaluation

/-! ## Conjunctions -/

section

variable {t : Terms} {answer : String → Int → Outcome (Option Pattern.Program)}

/-- All items match exactly when it is not so that some item does not. -/
theorem allMatch_run (ns : List Node) (record : Value) :
    (allMatch t Table.builtins ns record).run answer =
      (anyItem (fun n => (n.matches t Table.builtins record).negation) ns).negation.run answer := by
  induction ns with
  | nil => rfl
  | cons n ns ih =>
    rw [run_negation] at ih ⊢
    rw [allMatch, anyItem, run_bind, run_bind, run_negation]
    rcases (n.matches t Table.builtins record).run answer with e | _ | _
    · rfl
    · rfl
    · exact ih

/-- An object with one entry is matched like a conjunction of one. -/
theorem conjunction_run {table : Table} (ns : List Node) (record : Value) :
    ((Grammar.conjunction ns).matches t table record).run answer = (allMatch t table ns record).run answer := by
  unfold Grammar.conjunction
  split
  · next n =>
    rw [allMatch, run_bind]
    rcases (n.matches t table record).run answer with e | _ | _ <;> rfl
  · rw [Node.matches]

theorem anyMatches_eq (ns : List Node) (record : Value) :
    anyMatches t Table.builtins ns record = anyItem (fun n => n.matches t Table.builtins record) ns := by
  induction ns with
  | nil => rfl
  | cons n ns ih => rw [anyMatches, anyItem, ih]

/-- All tests pass exactly when it is not so that some test does not. -/
theorem allPass_run (ts : List Test) (actual : Value) :
    (allPass t Table.builtins ts actual).run answer =
      (anyItem (fun test => (test.passes t Table.builtins actual).negation) ts).negation.run answer := by
  induction ts with
  | nil => rfl
  | cons test rest ih =>
    rw [run_negation] at ih ⊢
    rw [allPass, anyItem, run_bind, run_bind, run_negation]
    rcases (test.passes t Table.builtins actual).run answer with e | _ | _
    · rfl
    · rfl
    · exact ih

end

/-! ## Trees -/

/-- Do both nodes have the same answer for every record for which they have one, if no comparator is asked? -/
def Node.Agrees (n m : Node) : Prop := ∀ (t : Terms) (limit : Int) (record : Value), t.comparator = none →
  Agree limit (n.matches t Table.builtins record) (m.matches t Table.builtins record)

def Condition.Agrees (c d : Condition) : Prop := ∀ (t : Terms) (limit : Int) (actual : Value),
  t.comparator = none → Agree limit (c.holds t Table.builtins actual) (d.holds t Table.builtins actual)

def Test.Agrees (u v : Test) : Prop := ∀ (t : Terms) (limit : Int) (actual : Value), t.comparator = none →
  Agree limit (u.passes t Table.builtins actual) (v.passes t Table.builtins actual)

/-- Do both literals test alike, if no comparator is asked? -/
def Literal.Agrees (l l' : Literal) : Prop := l.negated = l'.negated ∧
  ∀ (t : Terms) (actual : Value), t.comparator = none → t.hitsLiteral l actual = t.hitsLiteral l' actual

theorem Literal.Agrees.refl (l : Literal) : l.Agrees l := ⟨rfl, fun _ _ _ => rfl⟩

namespace Node.Agrees

variable {n m : Node} {ns ms : List Node}

theorem refl (n : Node) : n.Agrees n := fun _ _ _ _ => .of_eq rfl

theorem all (h : Paired Node.Agrees ns ms) (i j : Bool) : (Node.all ns i).Agrees (.all ms j) := by
  intro t limit record ht
  have hitems : Agree limit
      (anyItem (fun n => (n.matches t Table.builtins record).negation) ns).negation
      (anyItem (fun m => (m.matches t Table.builtins record).negation) ms).negation :=
    .negation (.anyItem (h.mono fun n _ m _ hnm => (hnm t limit record ht).negation))
  rw [Node.matches, Node.matches, Agree, allMatch_run, allMatch_run]
  exact hitems

theorem any (h : Paired Node.Agrees ns ms) : (Node.any ns).Agrees (.any ms) := by
  intro t limit record ht
  rw [Node.matches, Node.matches, anyMatches_eq, anyMatches_eq]
  exact .anyItem (h.mono fun n _ m _ hnm => hnm t limit record ht)

theorem not (h : n.Agrees m) : (Node.not n).Agrees (.not m) := by
  intro t limit record ht
  rw [Node.matches, Node.matches]
  exact (h t limit record ht).negation

theorem field {c d : Condition} (path : String) (h : c.Agrees d) :
    (Node.field path c).Agrees (.field path d) := by
  intro t limit record ht
  rw [Node.matches, Node.matches]
  exact h t limit _ ht

theorem junction (key : String) (h : Paired Node.Agrees ns ms) :
    (Grammar.junction key ns).Agrees (Grammar.junction key ms) := by
  unfold Grammar.junction
  split
  · exact all h _ _
  · exact any h

theorem conjunction (h : Paired Node.Agrees ns ms) :
    (Grammar.conjunction ns).Agrees (Grammar.conjunction ms) := by
  intro t limit record ht
  rw [Agree, conjunction_run, conjunction_run]
  have hall := all h true true t limit record ht
  rwa [Node.matches, Node.matches] at hall

end Node.Agrees

namespace Condition.Agrees

variable {l l' : Literal}

theorem literal (h : l.Agrees l') : (Condition.literal l).Agrees (.literal l') := by
  intro t limit actual ht
  refine .of_eq ?_
  rw [Condition.holds, Condition.holds, Terms.matchesLiteral, Terms.matchesLiteral, h.1, h.2 t actual ht]

theorem tests {ts us : List Test} (h : Paired Test.Agrees ts us) :
    (Condition.tests ts).Agrees (.tests us) := by
  intro t limit actual ht
  have hitems : Agree limit
      (anyItem (fun test => (test.passes t Table.builtins actual).negation) ts).negation
      (anyItem (fun test => (test.passes t Table.builtins actual).negation) us).negation :=
    .negation (.anyItem (h.mono fun u _ v _ huv => (huv t limit actual ht).negation))
  rw [Condition.holds, Condition.holds, Agree, allPass_run, allPass_run]
  exact hitems

theorem anyOf {ls ls' : List Literal} (h : Paired Literal.Agrees ls ls') :
    (Condition.anyOf ls).Agrees (.anyOf ls') := by
  intro t limit actual ht
  rw [Condition.holds, Condition.holds, Terms.matchesMember, Terms.matchesMember]
  exact .anyItem (h.mono fun l _ l' _ hl => .of_eq (hl.2 t actual ht))

theorem nested {n m : Node} (h : n.Agrees m) : (Condition.nested n).Agrees (.nested m) := by
  intro t limit actual ht
  rw [Condition.holds, Condition.holds]
  exact .anyItem (.of_forall₂ (List.forall₂_same.2 fun record _ => h t limit record ht))

end Condition.Agrees

namespace Test.Agrees

theorem apply {b : Builtin} {o o' : Operand} (h : b.Interchangeable o o') (raw raw' : Value) :
    (Test.apply b.key o raw).Agrees (.apply b.key o' raw') := by
  intro t limit actual ht
  refine .of_eq ?_
  have htest (o : Operand) : Table.builtins.test t b.key o actual = (b.test t actual o).orMiss := by
    rw [Table.test, Table.find?_builtin]
    rfl
  rw [Test.passes, Test.passes, htest, htest, h t actual]

theorem negate {c d : Condition} (h : c.Agrees d) (raw raw' : Value) :
    (Test.negate c raw).Agrees (.negate d raw') := by
  intro t limit actual ht
  rw [Test.passes, Test.passes]
  exact (h t limit actual ht).negation

end Test.Agrees

end Winnow
