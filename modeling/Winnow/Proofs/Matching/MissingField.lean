import Winnow.Proofs.Expression.Depth
import Winnow.Proofs.Expression.Keys
import Winnow.Proofs.Matching.Totality
/-! # Fields that are missing

What a condition comes to where its path leads nowhere can be read off the written condition:
`Value.holdsOfMissing`. No comparator is asked there, and no test fails, as patterns only look at texts and
every test by an operator but five misses. By the recursion of the check through maps of operators and
negations, each part of a checked condition comes to what is read off. -/

namespace Winnow

namespace Value

/-- The members of a list, tuple or set. -/
def members : Value → List Value
  | list items | tuple items | set items => items
  | _ => []

/-- Does an operator with an operand let a missing field pass? -/
def operatorHoldsOfMissing (key : String) (operand : Value) : Bool :=
  match key with
  | "$eq" => operand.isNull
  | "$ne" => !operand.isNull
  | "$in" => operand.members.any isNull
  | "$nin" => !operand.members.any isNull
  | "$exists" => operand.equal (bool false)
  | _ => false

/-- Does a literal hold of a missing field? Null does, and what is negated. -/
def literalHoldsOfMissing : Value → Bool
  | text s => Wildcard.isNegated s
  | v => v.isNull

mutual

/-- Does a written condition hold of a missing field? -/
def holdsOfMissing : Value → Bool
  | object entries => (object entries).hasOperator && entriesHoldOfMissing entries
  | list items | tuple items => items.any isNull
  | v => literalHoldsOfMissing v
termination_by structural v => v

/-- Do all entries of a map of operators hold of a missing field? -/
def entriesHoldOfMissing : List (Value × Value) → Bool
  | [] => true
  | (k, operand) :: rest =>
    (if k.display = notKey then !holdsOfMissing operand else operatorHoldsOfMissing k.display operand) &&
      entriesHoldOfMissing rest
termination_by structural es => es

end

end Value

variable {t : Terms} {limit : Int}

/-! ## Operators -/

namespace Builtin

/-- The operators that look at a missing value. -/
def readsMissing : Builtin → Bool
  | eq | ne | isPresent | isIn | notIn => true
  | _ => false

/-- The other operators miss it, whatever the operand. -/
theorem orMiss_of_missing {b : Builtin} (h : b.readsMissing = false) (operand : Operand) :
    (b.test t .missing operand).orMiss = .done (.ok false) := by
  cases b with
  | eq | ne | isPresent | isIn | notIn => cases h
  | _ => cases operand <;> rfl

/-- What the check makes of the operand of such an operator. -/
theorem check_readsMissing {b : Builtin} (hb : b.readsMissing = true) {operand : Value} {path : String} {o : Operand}
    (h : b.check operand path = .ok o) : o = if b = isIn ∨ b = notIn then .items operand.members else .value operand := by
  cases b with
  | eq | ne => exact (Except.ok.inj h).symm
  | isPresent | isIn | notIn => cases operand <;> cases h <;> rfl
  | _ => cases hb

theorem matchesThrough_missing (caseSensitive : Bool) (e : Value) :
    Value.missing.matchesThrough caseSensitive e = e.isNull := by
  rw [Value.matchesThrough, Value.matchesValue]
  exact (congrArg _ (Bool.and_false _)).trans (Bool.or_false _)

theorem isInItems_missing (items : List Value) : isInItems t .missing items = items.any Value.isNull := by
  rw [isInItems, funext (matchesThrough_missing t.caseSensitive)]

/-- A built-in operator comes to what is read off its operand. -/
theorem test_missing {b : Builtin} {operand : Value} {path : String} {o : Operand} (h : b.check operand path = .ok o) :
    (b.test t .missing o).orMiss = .done (.ok (Value.operatorHoldsOfMissing b.key operand)) := by
  cases hb : b.readsMissing with
  | false =>
    rw [orMiss_of_missing hb]
    cases b <;> first | rfl | cases hb
  | true =>
    obtain rfl := check_readsMissing hb h
    cases b with
    | eq => exact congrArg (Evaluation.done <| .ok ·) (matchesThrough_missing t.caseSensitive operand)
    | ne => exact congrArg (Evaluation.done <| .ok !·) (matchesThrough_missing t.caseSensitive operand)
    | isPresent => rfl
    | isIn => exact congrArg (Evaluation.done <| .ok ·) (isInItems_missing operand.members)
    | notIn => exact congrArg (Evaluation.done <| .ok !·) (isInItems_missing operand.members)
    | _ => cases hb

end Builtin

/-! ## Literals -/

/-- A literal is compared with what is missing without a comparator; its pattern, if it has one, only looks at
texts. -/
theorem hitsLiteral_missing {l : Literal} (hl : l.IsPlain) (hwildcard : l.wildcard.isSome = true → l.value.isNull = false) :
    (t.hitsLiteral l .missing).run (compileAnswer limit) = .ok l.value.isNull := by
  unfold Terms.hitsLiteral
  split
  · next source hsource =>
    obtain ⟨p, hp⟩ := (hl source hsource).exists_answer t limit
    rw [Evaluation.run, hp, hwildcard (by rw [hsource]; rfl)]
    rfl
  · rw [← Builtin.matchesThrough_missing t.caseSensitive]
    cases t.comparator <;> rfl

theorem Literal.wildcard_parse (v : Value) (h : (parse v).wildcard.isSome = true) : (parse v).value.isNull = false := by
  cases v <;> first | rfl | cases h

theorem Literal.wildcard_parseMember (v : Value) (h : (parseMember v).wildcard.isSome = true) :
    (parseMember v).value.isNull = false := by
  cases v <;> first | rfl | cases h

theorem matchesLiteral_missing (v : Value) :
    (t.matchesLiteral (.parse v) .missing).run (compileAnswer limit) = .ok v.literalHoldsOfMissing := by
  have hhits : (t.hitsLiteral (.parse v) .missing).run (compileAnswer limit) = .ok (Literal.parse v).value.isNull :=
    hitsLiteral_missing (Literal.parse_plain v) (Literal.wildcard_parse v)
  cases v with
  | text s =>
    have hnegated : (Literal.parse (.text s)).negated = Wildcard.isNegated s := rfl
    rw [Terms.matchesLiteral, hnegated, Value.literalHoldsOfMissing]
    cases Wildcard.isNegated s with
    | true => rw [if_pos rfl, Evaluation.run_negation, hhits, Outcome.map_ok]; rfl
    | false => exact hhits
  | _ => exact hhits

theorem matchesMember_missing (vs : List Value) :
    (t.matchesMember (vs.map .parseMember) .missing).run (compileAnswer limit) = .ok (vs.any Value.isNull) := by
  have hhit : ∀ l ∈ vs.map Literal.parseMember,
      (t.hitsLiteral l .missing).run (compileAnswer limit) = .ok l.value.isNull :=
    List.forall_mem_map.2 fun v _ => hitsLiteral_missing (Literal.parseMember_plain v) (Literal.wildcard_parseMember v)
  have hnull (v : Value) : (Literal.parseMember v).value.isNull = v.isNull := by cases v <;> rfl
  rw [Terms.matchesMember, Evaluation.run_anyItem hhit, List.any_map]
  exact congrArg (fun p => Except.ok (vs.any p)) (funext hnull)

/-! ## Conditions -/

namespace Grammar

variable {g : Grammar}

theorem passes_missing (hg : g.table = Table.builtins) {map operand : Value} {key path : String} {test : Test}
    (h : checkTest g map key operand path = .ok test) :
    (test.passes t Table.builtins .missing).run (compileAnswer limit) =
      .ok (Value.operatorHoldsOfMissing key operand) := by
  unfold checkTest at h
  obtain ⟨o, ho, h⟩ := Outcome.bind_eq_ok.1 h
  rw [hg, Table.lookup] at ho
  split at ho
  · next o' hfind =>
    obtain rfl := Except.ok.inj ho
    rcases Table.find?_builtins hfind with ⟨b, rfl, rfl⟩ | ⟨hstructural, -⟩
    · obtain ⟨operand', hcheck, h⟩ := Outcome.bind_eq_ok.1 h
      obtain rfl := Except.ok.inj h
      rw [Test.passes, Table.test, hfind]
      show Evaluation.run _ (b.test t .missing operand').orMiss = _
      rw [Builtin.test_missing hcheck]
      rfl
    · rw [hstructural] at h
      cases h
  · cases ho

mutual

theorem allPass_missing (hg : g.table = Table.builtins) (map : Value) (path : String) (es : List (Value × Value))
    {ts : List Test} (h : checkTests g map path es = .ok ts) :
    (allPass t Table.builtins ts .missing).run (compileAnswer limit) = .ok (Value.entriesHoldOfMissing es) := by
  match es with
  | [] =>
    cases h
    rfl
  | (k, operand) :: rest =>
    rw [checkTests_eq, List.mapM_cons] at h
    obtain ⟨test, htest, h⟩ := Outcome.bind_eq_ok.1 h
    obtain ⟨tests, htests, h⟩ := Outcome.bind_eq_ok.1 h
    obtain rfl := Except.ok.inj h
    have hrest := allPass_missing hg map path rest ((checkTests_eq g map path rest).trans htests)
    have hpass : (test.passes t Table.builtins .missing).run (compileAnswer limit) =
        .ok (if k.display = notKey then !operand.holdsOfMissing
          else Value.operatorHoldsOfMissing k.display operand) := by
      unfold testOf at htest
      split at htest
      · next hkey =>
        obtain ⟨c, hc, rfl⟩ := Outcome.map_eq_ok.1 htest
        have hinner := holds_missing_of_checkNegated hg operand _ hc
        rw [if_pos hkey, Test.passes, Evaluation.run_negation, hinner, Outcome.map_ok]
      · next hkey =>
        rw [if_neg hkey]
        exact passes_missing hg htest
    rw [allPass, Evaluation.run_bind, hpass, Outcome.ok_bind, Value.entriesHoldOfMissing]
    cases (if k.display = notKey then !operand.holdsOfMissing
          else Value.operatorHoldsOfMissing k.display operand) with
    | true => exact hrest
    | false => rfl
termination_by structural es

theorem holds_missing_of_checkNegated (hg : g.table = Table.builtins) (operand : Value) (path : String)
    {c : Condition} (h : checkNegated g operand path = .ok c) :
    (c.holds t Table.builtins .missing).run (compileAnswer limit) = .ok operand.holdsOfMissing := by
  cases operand with
  | object entries =>
    rw [checkNegated] at h
    split at h
    · cases h
    next hshape =>
    obtain ⟨ts, hts, rfl⟩ := Outcome.map_eq_ok.1 h
    have hall := allPass_missing hg _ path entries hts
    have hoperator : (Value.object entries).hasOperator = true := by
      rw [Bool.or_eq_true, not_or, Bool.not_eq_true, Bool.not_eq_true, Bool.not_eq_false'] at hshape
      obtain ⟨e, es, rfl⟩ := List.exists_cons_of_ne_nil (List.isEmpty_eq_false_iff.1 hshape.1)
      exact List.any_eq_true.2 ⟨e, List.mem_cons_self .., List.all_eq_true.1 hshape.2 e (List.mem_cons_self ..)⟩
    rw [Condition.holds, Value.holdsOfMissing, hoperator, Bool.true_and]
    exact hall
  | list _ | tuple _ => cases h
  | _ =>
    obtain rfl := Except.ok.inj h
    exact matchesLiteral_missing _
termination_by structural operand

end

theorem holds_missing (hg : g.table = Table.builtins) {depth : Nat} {path : String} {v : Value} {c : Condition}
    (h : g.checkCondition depth path v = .ok c) :
    (c.holds t Table.builtins .missing).run (compileAnswer limit) = .ok v.holdsOfMissing := by
  cases v with
  | object entries =>
    rw [Value.holdsOfMissing]
    cases hoperator : (Value.object entries).hasOperator with
    | true =>
      rw [checkCondition_operators hoperator] at h
      split at h
      · cases h
      obtain ⟨ts, hts, rfl⟩ := Outcome.map_eq_ok.1 h
      exact allPass_missing hg _ path entries hts
    | false =>
      -- what is missing has no fields that a nested object could look at
      rw [checkCondition_nested hoperator] at h
      obtain ⟨n, -, rfl⟩ := Outcome.map_eq_ok.1 h
      rfl
  | list items | tuple items =>
    obtain rfl := Except.ok.inj h
    exact matchesMember_missing items
  | _ =>
    obtain rfl := Except.ok.inj h
    exact matchesLiteral_missing _

end Grammar

/-! ## Matching -/

/-- With the built-in operators, whatever the options, a checked condition on a path that leads nowhere comes
to what is read off its written form. -/
theorem matches_of_missing {functions : Functions} {depth condition : Value} {key : String}
    (hkey : isOperatorKey (.text key) = false) {n : Node}
    (hn : validate Table.builtins functions depth (.ofPairs [(key, condition)]) = .ok n) {record : Value}
    (hmissing : Path.resolve record (Path.segments key) = .missing) (t : Terms) {store : PatternStore}
    (hstore : store.Sound) :
    ((n.matches t Table.builtins record).runState PatternStore.answer store).1 = .ok condition.holdsOfMissing := by
  obtain ⟨limit, -, hcheck⟩ := Outcome.bind_eq_ok.1 hn
  obtain ⟨-, c, hc, rfl⟩ := (Grammar.check_field hkey).1 hcheck
  rw [(hstore.runState _).1, Node.matches, hmissing]
  exact Grammar.holds_missing rfl hc

/-- No given number, no member of a list with a wildcard, and not both present and null. -/
def absentCondition : Value :=
  .ofPairs [("$ne", .int 5), ("$nin", .list [.text "a%", .int 3]),
    ("$not", .ofPairs [("$exists", .bool true), ("$in", .list [.null])])]

/-- A text has no fields, so it passes, although there is a comparator. -/
theorem matches_of_missing_compared : isOperatorKey (.text "b.c") = false ∧
    Path.resolve (.ofPairs [("b", .text "x")]) (Path.segments "b.c") = .missing ∧ emptyStore.Sound ∧
    ∃ n, validate Table.builtins Functions.standard (.int 3) (.ofPairs [("b.c", absentCondition)]) = .ok n ∧
      ((n.matches ⟨false, some (.function "same"), lastNoon, Functions.standard⟩ Table.builtins
        (.ofPairs [("b", .text "x")])).runState PatternStore.answer emptyStore).1 = .ok true := by
  have hmissing : Path.resolve (.ofPairs [("b", .text "x")]) (Path.segments "b.c") = .missing := rfl
  obtain ⟨n, hn⟩ : ∃ n, validate Table.builtins Functions.standard (.int 3)
      (.ofPairs [("b.c", absentCondition)]) = .ok n := ⟨_, rfl⟩
  have hholds : absentCondition.holdsOfMissing = true := rfl
  refine ⟨rfl, hmissing, emptyStore_sound, n, hn, ?_⟩
  rw [← hholds]
  exact matches_of_missing rfl hn hmissing _ emptyStore_sound

end Winnow
