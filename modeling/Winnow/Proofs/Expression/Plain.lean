import Winnow.Proofs.Expression.Rejection
import Winnow.Proofs.Pattern.IgnoreCase
import Winnow.Proofs.Pattern.Wildcard
import Winnow.Operator.Meaning
/-! # Checked trees have answers

A tree is plain when no function of the caller decides it and each pattern source in it can be compiled. With
the built-in operators a check gives plain trees, but for an expression that is a function itself. -/

namespace Winnow

/-! ## Sources -/

namespace Pattern

theorem Compilable.compile_error {source : String} (h : Compilable source) {flags : Int}
    (hflags : SameButCase 0 flags)
    {e : ParseError} (he : compile source flags = .error e) : e = .malformed := by
  rw [← compile_error_iff source hflags] at he
  exact h e (Outcome.map_eq_error.2 he)

/-- The source of a wildcard text can be compiled. -/
theorem compilable_patternSource (s : String) : Compilable (Wildcard.patternSource s) := by
  intro e he
  have hok : compile (Wildcard.patternSource s) 0 = _ := Wildcard.compile_patternSource s (.inl rfl)
  rw [make?, hok] at he
  cases he

end Pattern

/-- The flags of a call differ from none at most in case. -/
theorem Terms.sameButCase_patternFlags (t : Terms) : Pattern.SameButCase 0 t.patternFlags := by
  intro k hk
  unfold patternFlags
  split
  · rfl
  · have hadd := Pattern.hasFlag_add (j := 1) (k := k) (show Pattern.hasFlag 0 (2 ^ 1) = false by decide)
    rw [decide_eq_false hk.symm, Bool.false_or] at hadd
    exact hadd.symm

/-- A source that can be compiled has an answer, if only that there is no pattern. -/
theorem Pattern.Compilable.exists_answer {source : String} (h : Compilable source) (t : Terms) (limit : Int) :
    ∃ p, compileAnswer limit source t.patternFlags = .ok p := by
  unfold compileAnswer compileSource
  split
  · exact ⟨_, rfl⟩
  split
  · exact ⟨_, rfl⟩
  · exact ⟨_, rfl⟩
  · next he => cases h.compile_error t.sameButCase_patternFlags he
  · next he => cases h.compile_error t.sameButCase_patternFlags he

/-! ## Plain trees -/

def Literal.IsPlain (l : Literal) : Prop := ∀ source, l.wildcard = some source → Pattern.Compilable source

/-- Can the pattern source, if the operator has one for operand, be compiled? -/
def Builtin.IsPlain : Builtin → Operand → Prop
  | .regex, .value (.text source) | .search, .value (.text source) => Pattern.Compilable source
  | _, _ => True

mutual

def Node.IsPlain : Node → Prop
  | .all items _ | .any items => AllPlain items
  | .not item => item.IsPlain
  | .field _ condition => condition.IsPlain
  | .anyProperty l => l.IsPlain
  | .predicate _ => False
termination_by structural n => n

def AllPlain : List Node → Prop
  | [] => True
  | n :: ns => n.IsPlain ∧ AllPlain ns
termination_by structural ns => ns

def Condition.IsPlain : Condition → Prop
  | .literal l => l.IsPlain
  | .tests ts => TestsPlain ts
  | .anyOf members => ∀ l ∈ members, l.IsPlain
  | .nested node => node.IsPlain
termination_by structural c => c

def TestsPlain : List Test → Prop
  | [] => True
  | test :: rest => test.IsPlain ∧ TestsPlain rest
termination_by structural ts => ts

def Test.IsPlain : Test → Prop
  | .apply key operand _ => ∀ b : Builtin, b.key = key → b.IsPlain operand
  | .negate condition _ => condition.IsPlain
termination_by structural test => test

end

/-! ## What checks give -/

theorem Literal.ofText_plain (raw text : String) (negated : Bool) : (ofText raw text negated).IsPlain := by
  intro source h
  unfold ofText at h
  simp only at h
  split at h
  · exact Option.some.inj h ▸ Pattern.compilable_patternSource text
  · cases h

theorem Literal.parse_plain (v : Value) : (parse v).IsPlain := by
  unfold parse
  split
  · exact ofText_plain _ _ _
  · intro p h
    cases h

theorem Literal.parseMember_plain (v : Value) : (parseMember v).IsPlain := by
  unfold parseMember
  split
  · exact ofText_plain _ _ _
  · intro p h
    cases h

theorem Operand.Site.pattern_plain {s : Site} {b : Builtin} {operand : Operand}
    (h : s.pattern = .ok operand) :
    b.IsPlain operand := by
  unfold pattern at h
  split at h
  · next p hp =>
    rw [hp] at h
    cases h
    cases b <;> trivial
  · next source hsource =>
    split at h
    · cases h
    split at h
    · next p hp =>
      rw [hsource] at h
      cases h
      have hcompilable : Pattern.Compilable source := fun e he => by rw [hp] at he; cases he
      cases b <;> first | exact hcompilable | trivial
    all_goals cases h
  · cases h

theorem Builtin.check_plain {b : Builtin} {v : Value} {path : String} {operand : Operand}
    (h : b.check v path = .ok operand) : b.IsPlain operand := by
  cases b with
  | regex | search => exact Operand.Site.pattern_plain h
  | _ => trivial

namespace Grammar

variable {g : Grammar}

theorem checkTest_plain (hg : g.table = Table.builtins) {map v : Value} {key path : String} {test : Test}
    (h : checkTest g map key v path = .ok test) : test.IsPlain := by
  unfold checkTest at h
  obtain ⟨info, hinfo, h⟩ := Outcome.bind_eq_ok.1 h
  unfold Table.lookup at hinfo
  rw [hg] at hinfo
  split at hinfo
  · next o hfind =>
    cases hinfo
    rcases Table.find?_builtins hfind with ⟨b, rfl, rfl⟩ | ⟨hstructural, -⟩
    · obtain ⟨operand, hcheck, rfl⟩ := Outcome.map_eq_ok.1 ((Outcome.bind_pure_eq _).symm.trans h)
      exact fun b' hb => Builtin.key_inj hb ▸ Builtin.check_plain hcheck
    · rw [if_pos hstructural] at h
      cases h
  · cases hinfo

mutual

theorem checkTests_plain (hg : g.table = Table.builtins) (map : Value) (path : String)
    (es : List (Value × Value))
    {ts : List Test} (h : checkTests g map path es = .ok ts) : TestsPlain ts := by
  match es with
  | [] =>
    cases h
    trivial
  | (k, operand) :: rest =>
    have hrest (test : Test) (htest : test.IsPlain)
        (h : (do return test :: (← checkTests g map path rest)) = .ok ts) : TestsPlain ts := by
      obtain ⟨tests, htests, rfl⟩ := Outcome.map_eq_ok.1 ((Outcome.bind_pure_eq _).symm.trans h)
      exact ⟨htest, checkTests_plain hg map path rest htests⟩
    rw [checkTests] at h
    simp only at h
    split at h
    · obtain ⟨condition, hcondition, h⟩ := Outcome.bind_eq_ok.1 h
      exact hrest (.negate condition operand) (checkNegated_plain hg operand _ hcondition) h
    · obtain ⟨test, htest, h⟩ := Outcome.bind_eq_ok.1 h
      exact hrest test (checkTest_plain hg htest) h
termination_by structural es

theorem checkNegated_plain (hg : g.table = Table.builtins) (operand : Value) (path : String) {c : Condition}
    (h : checkNegated g operand path = .ok c) : c.IsPlain := by
  cases operand with
  | object entries =>
    rw [checkNegated] at h
    split at h
    · cases h
    · obtain ⟨ts, hts, rfl⟩ := Outcome.map_eq_ok.1 h
      exact checkTests_plain hg _ path entries hts
  | list | tuple => cases h
  | _ =>
    cases h
    exact Literal.parse_plain _
termination_by structural operand

end

theorem conjunction_plain {ns : List Node} (h : AllPlain ns) : (conjunction ns).IsPlain := by
  unfold conjunction
  split
  · exact h.1
  · exact h

theorem object_plain {depth : Nat} {path : String} {part : Value} {items : Unit → Outcome (List Node)}
    {n : Node}
    (h : g.object depth path part items = .ok n) (hitems : ∀ ns, items () = .ok ns → AllPlain ns) :
    n.IsPlain := by
  unfold object at h
  split at h
  · cases h
  · obtain ⟨ns, hns, rfl⟩ := Outcome.map_eq_ok.1 h
    exact conjunction_plain (hitems ns hns)

mutual

theorem checkEntries_plain (hg : g.table = Table.builtins) (depth : Nat) (path : String) (expression : Value)
    (es : List (Value × Value)) {ns : List Node} (h : g.checkEntries depth path expression es = .ok ns) :
    AllPlain ns := by
  match es with
  | [] =>
    cases h
    trivial
  | (k, v) :: rest =>
    have hrest {first : Outcome Node} (hfirst : ∀ node, first = .ok node → node.IsPlain)
        (h : (first >>= fun node => do return node :: (← g.checkEntries depth path expression rest)) =
          .ok ns) :
        AllPlain ns := by
      obtain ⟨node, hnode, h⟩ := Outcome.bind_eq_ok.1 h
      obtain ⟨nodes, hnodes, rfl⟩ := Outcome.map_eq_ok.1 ((Outcome.bind_pure_eq _).symm.trans h)
      exact ⟨hfirst node hnode, checkEntries_plain hg depth path expression rest hnodes⟩
    cases k with
    | text key =>
      rw [checkEntries] at h
      simp only at h
      split at h
      · exact hrest (fun _ => checkJunction_plain hg _ depth _ v) h
      split at h
      · exact hrest (fun _ => checkNot_plain hg depth _ v) h
      split at h
      · obtain ⟨info, -, h⟩ := Outcome.bind_eq_ok.1 h
        cases h
      · refine hrest (fun _ hnode => ?_) h
        obtain ⟨condition, hcondition, rfl⟩ := Outcome.map_eq_ok.1 hnode
        exact checkCondition_plain hg depth _ v hcondition
    | _ => cases h
termination_by structural es

theorem checkJunction_plain (hg : g.table = Table.builtins) (key : String) (depth : Nat) (path : String)
    (v : Value) {n : Node} (h : g.checkJunction key depth path v = .ok n) : n.IsPlain := by
  cases v with
  | list items | tuple items =>
    rw [checkJunction] at h
    obtain ⟨ns, hns, rfl⟩ := Outcome.map_eq_ok.1 h
    have hplain := checkItems_plain hg key depth path 0 items hns
    unfold junction
    split <;> exact hplain
  | _ => cases h
termination_by structural v

theorem checkItems_plain (hg : g.table = Table.builtins) (key : String) (depth : Nat) (path : String)
    (place : Nat)
    (vs : List Value) {ns : List Node} (h : g.checkItems key depth path place vs = .ok ns) : AllPlain ns := by
  match vs with
  | [] =>
    cases h
    trivial
  | v :: rest =>
    cases v with
    | object entries =>
      rw [checkItems] at h
      obtain ⟨node, hnode, h⟩ := Outcome.bind_eq_ok.1 h
      obtain ⟨nodes, hnodes, rfl⟩ := Outcome.map_eq_ok.1 ((Outcome.bind_pure_eq _).symm.trans h)
      refine ⟨?_, checkItems_plain hg key depth path (place + 1) rest hnodes⟩
      refine object_plain hnode fun ns hns => ?_
      exact checkEntries_plain hg _ _ _ entries hns
    | _ => cases h
termination_by structural vs

theorem checkNot_plain (hg : g.table = Table.builtins) (depth : Nat) (path : String) (v : Value) {n : Node}
    (h : g.checkNot depth path v = .ok n) : n.IsPlain := by
  cases v with
  | object entries =>
    rw [checkNot] at h
    obtain ⟨item, hitem, rfl⟩ := Outcome.map_eq_ok.1 h
    have hplain : item.IsPlain := object_plain hitem fun ns hns => checkEntries_plain hg _ _ _ entries hns
    exact hplain
  | _ => cases h
termination_by structural v

theorem checkCondition_plain (hg : g.table = Table.builtins) (depth : Nat) (path : String) (v : Value)
    {c : Condition} (h : g.checkCondition depth path v = .ok c) : c.IsPlain := by
  cases v with
  | object entries =>
    rw [checkCondition] at h
    split at h
    · cases h
    split at h
    · obtain ⟨ts, hts, rfl⟩ := Outcome.map_eq_ok.1 h
      exact checkTests_plain hg _ path entries hts
    · obtain ⟨node, hnode, rfl⟩ := Outcome.map_eq_ok.1 h
      refine object_plain hnode fun ns hns => ?_
      exact checkEntries_plain hg _ _ _ entries hns
  | list items | tuple items =>
    cases h
    intro l hl
    obtain ⟨v, -, rfl⟩ := List.mem_map.1 hl
    exact Literal.parseMember_plain v
  | _ =>
    cases h
    exact Literal.parse_plain _
termination_by structural v

end

/-- A checked tree is plain, unless the expression is a function. -/
theorem check_plain (hg : g.table = Table.builtins) {expression : Value}
    (hexpression : ∀ name, expression ≠ .callable (.function name)) {n : Node}
    (h : g.check expression = .ok n) :
    n.IsPlain := by
  cases expression with
  | object entries =>
    rw [check] at h
    exact object_plain h fun ns hns => checkEntries_plain hg _ _ _ entries hns
  | callable c =>
    cases c with
    | function name => exact absurd rfl (hexpression name)
    | type => cases h
  | _ =>
    cases h <;> exact Literal.parse_plain _

end Grammar

end Winnow
