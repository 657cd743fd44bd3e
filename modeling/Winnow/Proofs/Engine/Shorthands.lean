import Winnow.Proofs.Engine.Wildcards
import Winnow.Proofs.Expression.ReadBack
/-! # Shorthands

A scalar, a text with `!` before it and a list on a field are short for tests by equality, by its opposite and by
membership. A negation may stand on a field or around it, and a scalar alone is short for the scalar on some field.
`SpellsOut` states that of an engine: what is short and what is spelled out are checked on two ways, as literals and
as tests, and matching comes to the same on both. -/

namespace Winnow

open Outcome Evaluation Wildcard

/-! ## Paths without dots -/

namespace Path

theorem splitOn_of_notMem {separator : Char} {cs : List Char} (h : separator ∉ cs) : splitOn separator cs = [cs] := by
  induction cs with
  | nil => rfl
  | cons c cs ih =>
    obtain ⟨hc, hcs⟩ := List.ne_and_not_mem_of_not_mem_cons h
    rw [splitOn, if_neg (Ne.symm hc), ih hcs]

theorem segments_undotted {key : String} (h : '.' ∉ key.toList) : segments key = [key] := by
  rw [segments, splitOn_of_notMem h, List.map_singleton, String.ofList_toList]

end Path

namespace Value

/-! ## Kinds of values -/

/-- Is the value one that is an expression on its own? -/
def isScalar : Value → Bool
  | text _ | int _ | float _ | bool _ | null | date _ | moment _ => true
  | _ => false

/-- Is the value a mapping from operators to operands? -/
def isOperatorMap : Value → Bool
  | object entries => !entries.isEmpty && entries.all fun e => isOperatorKey e.1
  | _ => false

/-- A mapping has an entry under each of its keys. -/
theorem get?_pairs {pairs : List (String × Value)} (hkeys : (pairs.map (·.1)).Nodup) {key : String} {v : Value}
    (h : (key, v) ∈ pairs) : get? (pairs.map fun p => (text p.1, p.2)) key = some v := by
  induction pairs with
  | nil => cases h
  | cons p pairs ih =>
    obtain ⟨hp, hpairs⟩ := List.nodup_cons.1 hkeys
    rw [List.map_cons, get?]
    rcases List.mem_cons.1 h with rfl | h
    · rw [if_pos rfl]
    · have hne : p.1 ≠ key := fun heq => hp (List.mem_map.2 ⟨_, h, heq.symm⟩)
      rw [if_neg hne, ih hpairs h]

theorem resolve_ofPairs {pairs : List (String × Value)} (hkeys : (pairs.map (·.1)).Nodup) {key : String} {v : Value}
    (h : (key, v) ∈ pairs) (hdot : '.' ∉ key.toList) : Path.resolve (ofPairs pairs) (Path.segments key) = v := by
  rw [Path.segments_undotted hdot, Path.resolve, List.foldl_cons, List.foldl_nil, ofPairs, Path.step, get?_pairs hkeys h,
    Option.getD_some]

end Value

namespace Literal

theorem parse_exact {v : Value} (h : ∀ s, v = .text s → isNegated s = false ∧ occurs s = false) :
    parse v = ⟨v, v, false, none⟩ := by
  cases v with
  | text s =>
    obtain ⟨hnegated, hplain⟩ := h s rfl
    rw [Engine.parse_unnegated hnegated, ofText, if_neg (by simp [hplain])]
  | _ => rfl

theorem parseMember_exact {v : Value} (h : ∀ s, v = .text s → occurs s = false) :
    parseMember v = ⟨v, v, false, none⟩ := by
  cases v with
  | text s => rw [parseMember, ofText, if_neg (by simp [h s rfl])]
  | _ => rfl

theorem negated_parse {v : Value} (h : ∀ s, v = .text s → isNegated s = false) : (parse v).negated = false := by
  cases v with
  | text s => rw [Engine.parse_unnegated (h s rfl), ofText]
  | _ => rfl

end Literal

/-! ## Checks -/

namespace Grammar

variable {g : Grammar} {v : Value}

theorem checkCondition_scalar (h : v.isScalar = true) (depth : Nat) (path : String) :
    g.checkCondition depth path v = .ok (.literal (.parse v)) := by
  cases v <;> first | rfl | cases h

theorem check_scalar (h : v.isScalar = true) : g.check v = .ok (.anyProperty (.parse v)) := by
  cases v <;> first | rfl | cases h

theorem checkCondition_items {items : List Value} (h : v.items? = some items) (depth : Nat) (path : String) :
    g.checkCondition depth path v = .ok (.anyOf (items.map .parseMember)) := by
  cases v with
  | list _ | tuple _ =>
    obtain rfl := Option.some.inj h
    rfl
  | _ => cases h

theorem checkCondition_operatorMap {es : List (Value × Value)} (h : (Value.object es).isOperatorMap = true)
    (depth : Nat) (path : String) :
    g.checkCondition depth path (.object es) = (checkTests g (.object es) path es).map .tests := by
  obtain ⟨hsome, hkeys⟩ := (Bool.and_eq_true _ _).mp h
  have hoperator : (Value.object es).hasOperator = true := by
    obtain ⟨e, he⟩ := List.exists_mem_of_ne_nil es (by simpa using hsome)
    exact List.any_eq_true.2 ⟨e, he, List.all_eq_true.1 hkeys e he⟩
  have hall : (es.map (·.1)).filter isOperatorKey = es.map (·.1) := by
    rw [List.filter_eq_self]
    exact List.forall_mem_map.2 (List.all_eq_true.1 hkeys)
  rw [checkCondition_operators hoperator, hall, if_neg (by simp)]

theorem checkNegated_operatorMap {es : List (Value × Value)} (h : (Value.object es).isOperatorMap = true)
    (path : String) : checkNegated g (.object es) path = (checkTests g (.object es) path es).map .tests := by
  obtain ⟨hsome, hkeys⟩ := (Bool.and_eq_true _ _).mp h
  rw [checkNegated, if_neg]
  simpa [hkeys] using hsome

/-- What a negation takes is accepted after it as it is on a field. -/
theorem checkNegated_eq_ok_iff (hpure : g.table.ChecksPurely g.functions) (hwell : v.WellMapped)
    (hv : v.isScalar = true ∨ v.isOperatorMap = true) (depth : Nat) (path path' : String) {c : Condition} :
    checkNegated g v path = .ok c ↔ g.checkCondition depth path' v = .ok c := by
  rcases hv with hscalar | hmap
  · rw [checkCondition_scalar hscalar]
    cases v <;> first | exact Iff.rfl | cases hscalar
  · obtain ⟨es, rfl⟩ : ∃ es, v = .object es := by cases v <;> first | exact ⟨_, rfl⟩ | cases hmap
    rw [checkNegated_operatorMap hmap, checkCondition_operatorMap hmap, map_eq_ok, map_eq_ok]
    have helsewhere (path path' : String) (ts : List Test) (hts : checkTests g (.object es) path es = .ok ts) :
        checkTests g (.object es) path' es = .ok ts := by
      obtain ⟨_, hts', rfl⟩ := (checkTests_elsewhere hpure g.maxDepth g.maxDepth hwell _ _ path path').exists_ok hts
      exact hts'
    exact exists_congr fun ts => and_congr_left fun _ => ⟨helsewhere _ _ ts, helsewhere _ _ ts⟩

end Grammar

/-- Does the table hold the built-in operators that shorthands stand for? -/
structure Table.HoldsShorthands (table : Table) : Prop where
  eq : table.find? Builtin.eq.key = some (.ofBuiltin .eq)
  ne : table.find? Builtin.ne.key = some (.ofBuiltin .ne)
  isIn : table.find? Builtin.isIn.key = some (.ofBuiltin .isIn)

namespace Engine

variable {e e₀ : Engine} {o : Options} {t : Table} {settings : Settings} {shared : Bool} {environment : Environment}
  {now : Moment} {f : String} {v record actual : Value} {b : Bool} {c : Condition}

/-! ## Answers -/

/-- Does the engine accept the expression, and is the answer for the record the given one? -/
def Answers (e : Engine) (o : Options) (x record : Value) (matched : Bool) : Prop :=
  ∃ node, e.check x (.int o.maxDepth) = .ok node ∧ (e.test o node e.patterns record).1 = .ok matched

/-- Do both expressions come to one answer for every record? -/
def Coincide (e : Engine) (o : Options) (x y : Value) : Prop :=
  ∀ record, ∃ matched, e.Answers o x record matched ∧ e.Answers o y record matched

/-- Is every shorthand matched like what it is short for? A negation around a field is one level deeper than the
field; operators of the user's may stand in it, if their checks look at nothing but the operand. -/
structure SpellsOut (e : Engine) (o : Options) : Prop where
  equal {f : String} (hf : isOperatorKey (.text f) = false) {v : Value} (hv : v.isScalar = true)
    (hexact : ∀ s, v = .text s → isNegated s = false ∧ occurs s = false) :
    e.Coincide o (.ofPairs [(f, v)]) (.ofPairs [(f, .ofPairs [(Builtin.eq.key, v)])])
  unequal {f : String} (hf : isOperatorKey (.text f) = false) {s : String} (hs : occurs s = false) :
    e.Coincide o (.ofPairs [(f, .text (negated s))]) (.ofPairs [(f, .ofPairs [(Builtin.ne.key, .text s)])])
  member {f : String} (hf : isOperatorKey (.text f) = false) {v : Value} {items : List Value}
    (hv : v.items? = some items) (hexact : ∀ s, .text s ∈ items → occurs s = false) :
    e.Coincide o (.ofPairs [(f, v)]) (.ofPairs [(f, .ofPairs [(Builtin.isIn.key, v)])])
  negation (hpure : e.table.ChecksPurely e.environment.functions) {f : String}
    (hf : isOperatorKey (.text f) = false) {v : Value} (hwell : v.WellMapped)
    (hv : v.isScalar = true ∨ v.isOperatorMap = true) (hdepth : 2 ≤ o.maxDepth) :
    ((∃ n, e.check (.ofPairs [(f, .ofPairs [(notKey, v)])]) (.int o.maxDepth) = .ok n) ↔
      ∃ n, e.check (.ofPairs [(notKey, .ofPairs [(f, v)])]) (.int o.maxDepth) = .ok n) ∧
    ∀ record matched, e.Answers o (.ofPairs [(f, .ofPairs [(notKey, v)])]) record matched ↔
      e.Answers o (.ofPairs [(notKey, .ofPairs [(f, v)])]) record matched
  someField {pairs : List (String × Value)} (hkeys : (pairs.map (·.1)).Nodup)
    (hplain : ∀ k ∈ pairs.map (·.1), '.' ∉ k.toList ∧ isOperatorKey (.text k) = false) {v : Value}
    (hv : v.isScalar = true) (hunnegated : ∀ s, v = .text s → isNegated s = false) :
    ∃ matched : String → Bool,
      (∀ k ∈ pairs.map (·.1), e.Answers o (.ofPairs [(k, v)]) (.ofPairs pairs) (matched k)) ∧
      e.Answers o v (.ofPairs pairs) ((pairs.map (·.1)).any matched)
  everyField {pairs : List (String × Value)} (hkeys : (pairs.map (·.1)).Nodup)
    (hplain : ∀ k ∈ pairs.map (·.1), '.' ∉ k.toList ∧ isOperatorKey (.text k) = false) (s : String) :
    ∃ matched : String → Bool,
      (∀ k ∈ pairs.map (·.1), e.Answers o (.ofPairs [(k, .text (negated s))]) (.ofPairs pairs) (matched k)) ∧
      e.Answers o (.text (negated s)) (.ofPairs pairs) ((pairs.map (·.1)).all matched)

/-- What a condition comes to for a value. -/
def holds (e : Engine) (o : Options) (c : Condition) (actual : Value) : Outcome Bool :=
  (c.holds (o.terms e.now e.environment.functions) e.table actual).run (compileAnswer e.patterns.maxLength)

/-- An engine with the operators, sound patterns and options that name no comparator. -/
structure Reads (e : Engine) (o : Options) : Prop where
  patterns : e.patterns.Sound
  table : e.table.HoldsShorthands
  comparator : o.customComparator = none
  least : 1 ≤ o.maxDepth
  most : o.maxDepth ≤ 10

/-- What the engine checks expressions against. -/
def grammar (e : Engine) (o : Options) : Grammar := ⟨e.table, e.environment.functions, o.maxDepth⟩

namespace Reads

variable (h : e.Reads o)
include h

theorem check_eq (x : Value) : e.check x (.int o.maxDepth) = (e.grammar o).check x := by
  have hnonempty : e.table.operators ≠ [] := by
    intro hempty
    have hfind := h.table.eq
    rw [Table.find?, hempty] at hfind
    cases hfind
  rw [check, checkingTable_of_nonempty hnonempty, validate_int h.least h.most, grammar]

theorem answers_iff : e.Answers o x record b ↔ ∃ n, (e.grammar o).check x = .ok n ∧ e.passes o n record = .ok b := by
  have htest (n : Node) : (e.test o n e.patterns record).1 = e.passes o n record := (h.patterns.runState _).1
  simp only [Answers, h.check_eq, htest]

theorem answers_field (hf : isOperatorKey (.text f) = false)
    (hc : (e.grammar o).checkCondition 1 (Path.join "" f) v = .ok c)
    (hb : e.holds o c (Path.resolve record (Path.segments f)) = .ok b) :
    e.Answers o (.ofPairs [(f, v)]) record b :=
  h.answers_iff.2 ⟨.field f c, (Grammar.check_field hf).2 ⟨h.least, c, hc, rfl⟩, hb⟩

theorem coincide {d : Condition} {w : Value} (hf : isOperatorKey (.text f) = false)
    (hc : (e.grammar o).checkCondition 1 (Path.join "" f) v = .ok c)
    (hd : (e.grammar o).checkCondition 1 (Path.join "" f) w = .ok d)
    (hsame : ∀ actual, ∃ b, e.holds o c actual = .ok b ∧ e.holds o d actual = .ok b) :
    e.Coincide o (.ofPairs [(f, v)]) (.ofPairs [(f, w)]) := by
  intro record
  obtain ⟨b, hcb, hdb⟩ := hsame (Path.resolve record (Path.segments f))
  exact ⟨b, h.answers_field hf hc hcb, h.answers_field hf hd hdb⟩

/-! ## Conditions -/

/-- Every literal has an answer for every value. -/
theorem exists_hits {l : Literal} (hl : l.IsPlain) : ∃ hits : Value → Bool, ∀ actual,
    ((o.terms e.now e.environment.functions).hitsLiteral l actual).run (compileAnswer e.patterns.maxLength) =
      .ok (hits actual) := by
  have hcomparator : (o.terms e.now e.environment.functions).comparator = none := h.comparator
  choose hits hhits using hitsLiteral_ok hcomparator hl
  exact ⟨hits, hhits⟩

theorem hitsLiteral_exact (raw v actual : Value) (negated : Bool) :
    (o.terms e.now e.environment.functions).hitsLiteral ⟨raw, v, negated, none⟩ actual =
      pure (actual.matchesThrough o.caseSensitive v) := by
  have hnone : (o.terms e.now e.environment.functions).comparator = none := h.comparator
  rw [Terms.hitsLiteral, hnone]
  rfl

theorem holds_exact (raw v actual : Value) : e.holds o (.literal ⟨raw, v, false, none⟩) actual =
    .ok (actual.matchesThrough o.caseSensitive v) := by
  rw [holds, Condition.holds, Terms.matchesLiteral, if_neg Bool.false_ne_true, h.hitsLiteral_exact]
  rfl

theorem holds_negated (raw v actual : Value) : e.holds o (.literal ⟨raw, v, true, none⟩) actual =
    .ok !actual.matchesThrough o.caseSensitive v := by
  rw [holds, Condition.holds, Terms.matchesLiteral, if_pos rfl, h.hitsLiteral_exact]
  rfl

theorem holds_members {items : List Value} (hexact : ∀ s, .text s ∈ items → occurs s = false) (actual : Value) :
    e.holds o (.anyOf (items.map .parseMember)) actual =
      .ok (items.any fun item => actual.matchesThrough o.caseSensitive item) := by
  have hhits : ∀ l ∈ items.map Literal.parseMember,
      ((o.terms e.now e.environment.functions).hitsLiteral l actual).run (compileAnswer e.patterns.maxLength) =
        .ok (actual.matchesThrough o.caseSensitive l.value) := by
    refine List.forall_mem_map.2 fun item hitem => ?_
    rw [Literal.parseMember_exact fun s hs => hexact s (hs ▸ hitem), h.hitsLiteral_exact]
    rfl
  have hvalue (item : Value) : (Literal.parseMember item).value = item := by cases item <;> rfl
  rw [holds, Condition.holds, Terms.matchesMember, run_anyItem hhits, List.any_map]
  simp only [Function.comp_def, hvalue]

omit h in
theorem holds_test (test : Test) (actual : Value) : e.holds o (.tests [test]) actual =
    (test.passes (o.terms e.now e.environment.functions) e.table actual).run (compileAnswer e.patterns.maxLength) := by
  rw [holds, Condition.holds, allPass, allPass, run_single]

omit h in
theorem holds_builtin {builtin : Builtin} (hinfo : e.table.find? builtin.key = some (.ofBuiltin builtin))
    {operand : Operand} {raw : Value}
    (hb : builtin.test (o.terms e.now e.environment.functions) actual operand = .done (.ok b)) :
    e.holds o (.tests [.apply builtin.key operand raw]) actual = .ok b := by
  rw [holds_test, Test.passes, Table.test, hinfo]
  show Evaluation.run _ (builtin.test _ actual operand).orMiss = _
  rw [hb]
  rfl

/-! ## One shorthand after the other -/

theorem equal (hf : isOperatorKey (.text f) = false) (hv : v.isScalar = true)
    (hexact : ∀ s, v = .text s → isNegated s = false ∧ occurs s = false) :
    e.Coincide o (.ofPairs [(f, v)]) (.ofPairs [(f, .ofPairs [(Builtin.eq.key, v)])]) := by
  have hc := Grammar.checkCondition_scalar (g := e.grammar o) hv 1 (Path.join "" f)
  rw [Literal.parse_exact hexact] at hc
  have hd := Grammar.checkCondition_builtin (g := e.grammar o) h.table.eq 1 (Path.join "" f) v
  refine h.coincide hf hc hd fun actual => ⟨_, h.holds_exact v v actual, ?_⟩
  exact holds_builtin h.table.eq rfl

theorem unequal (hf : isOperatorKey (.text f) = false) {s : String} (hs : occurs s = false) :
    e.Coincide o (.ofPairs [(f, .text (negated s))]) (.ofPairs [(f, .ofPairs [(Builtin.ne.key, .text s)])]) := by
  have hc := Grammar.checkCondition_scalar (g := e.grammar o) (v := .text (negated s)) rfl 1 (Path.join "" f)
  rw [parse_negated, Literal.ofText, if_neg (by simp [hs])] at hc
  have hd := Grammar.checkCondition_builtin (g := e.grammar o) h.table.ne 1 (Path.join "" f) (.text s)
  refine h.coincide hf hc hd fun actual => ⟨_, h.holds_negated _ (.text s) actual, ?_⟩
  exact holds_builtin h.table.ne rfl

theorem member (hf : isOperatorKey (.text f) = false) {items : List Value} (hv : v.items? = some items)
    (hexact : ∀ s, .text s ∈ items → occurs s = false) :
    e.Coincide o (.ofPairs [(f, v)]) (.ofPairs [(f, .ofPairs [(Builtin.isIn.key, v)])]) := by
  have hc := Grammar.checkCondition_items (g := e.grammar o) hv 1 (Path.join "" f)
  have hd := Grammar.checkCondition_builtin (g := e.grammar o) h.table.isIn 1 (Path.join "" f) v
  have hoperand : Builtin.isIn.check v (Path.join (Path.join "" f) Builtin.isIn.key) = .ok (.items items) := by
    cases v with
    | list _ | tuple _ =>
      obtain rfl := Option.some.inj hv
      rfl
    | _ => cases hv
  rw [hoperand] at hd
  refine h.coincide hf hc hd fun actual => ⟨_, h.holds_members hexact actual, ?_⟩
  exact holds_builtin h.table.isIn rfl

theorem negation (hpure : e.table.ChecksPurely e.environment.functions) (hf : isOperatorKey (.text f) = false)
    (hwell : v.WellMapped) (hv : v.isScalar = true ∨ v.isOperatorMap = true) (hdepth : 2 ≤ o.maxDepth) :
    ((∃ n, e.check (.ofPairs [(f, .ofPairs [(notKey, v)])]) (.int o.maxDepth) = .ok n) ↔
      ∃ n, e.check (.ofPairs [(notKey, .ofPairs [(f, v)])]) (.int o.maxDepth) = .ok n) ∧
    ∀ record matched, e.Answers o (.ofPairs [(f, .ofPairs [(notKey, v)])]) record matched ↔
      e.Answers o (.ofPairs [(notKey, .ofPairs [(f, v)])]) record matched := by
  -- both are accepted just when the negated condition is
  have hon (n : Node) : (e.grammar o).check (.ofPairs [(f, .ofPairs [(notKey, v)])]) = .ok n ↔
      ∃ c, (e.grammar o).checkCondition 1 (Path.join "" f) v = .ok c ∧ n = .field f (.tests [.negate c v]) := by
    have htest : (e.grammar o).testOf (.ofPairs [(notKey, v)]) (Path.join "" f) (.text notKey, v) =
        (Grammar.checkNegated (e.grammar o) v (Path.join (Path.join "" f) notKey)).map (Test.negate · v) := if_pos rfl
    rw [Grammar.check_field hf, and_iff_right (show 1 ≤ (e.grammar o).maxDepth from h.least),
      Grammar.checkCondition_test rfl, htest]
    have hcondition (c : Condition) : Grammar.checkNegated (e.grammar o) v (Path.join (Path.join "" f) notKey) = .ok c ↔
        (e.grammar o).checkCondition 1 (Path.join "" f) v = .ok c :=
      Grammar.checkNegated_eq_ok_iff hpure hwell hv _ _ _
    simp only [map_eq_ok, hcondition]
    constructor
    · rintro ⟨_, ⟨_, ⟨c, hc, rfl⟩, rfl⟩, rfl⟩
      exact ⟨c, hc, rfl⟩
    · rintro ⟨c, hc, rfl⟩
      exact ⟨_, ⟨_, ⟨c, hc, rfl⟩, rfl⟩, rfl⟩
  have haround (n : Node) : (e.grammar o).check (.ofPairs [(notKey, .ofPairs [(f, v)])]) = .ok n ↔
      ∃ c, (e.grammar o).checkCondition 1 (Path.join "" f) v = .ok c ∧ n = .not (.field f c) := by
    rw [Grammar.check_not_field hf]
    refine (and_iff_right hdepth).trans (exists_congr fun c => and_congr_left fun _ => ?_)
    exact (Grammar.checkNegated_eq_ok_iff hpure hwell hv _ "" _).symm.trans
      (Grammar.checkNegated_eq_ok_iff hpure hwell hv _ "" _)
  have hpasses (c : Condition) (record : Value) :
      e.passes o (.field f (.tests [.negate c v])) record = e.passes o (.not (.field f c)) record := by
    have htest := holds_test (e := e) (o := o) (.negate c v) (Path.resolve record (Path.segments f))
    rw [Test.passes] at htest
    rw [passes, passes, Node.matches, Node.matches, Node.matches]
    exact htest
  refine ⟨?_, fun record matched => ?_⟩
  · simp only [h.check_eq, hon, haround]
    constructor
    · rintro ⟨_, c, hc, -⟩
      exact ⟨_, c, hc, rfl⟩
    · rintro ⟨_, c, hc, -⟩
      exact ⟨_, c, hc, rfl⟩
  · simp only [h.answers_iff, hon, haround]
    constructor
    · rintro ⟨_, ⟨c, hc, rfl⟩, hb⟩
      exact ⟨_, ⟨c, hc, rfl⟩, (hpasses c record).symm.trans hb⟩
    · rintro ⟨_, ⟨c, hc, rfl⟩, hb⟩
      exact ⟨_, ⟨c, hc, rfl⟩, (hpasses c record).trans hb⟩

/-- A scalar alone and the scalar on each field, in one view: the literal hits values or does not. -/
theorem fields {pairs : List (String × Value)} (hkeys : (pairs.map (·.1)).Nodup)
    (hplain : ∀ k ∈ pairs.map (·.1), '.' ∉ k.toList ∧ isOperatorKey (.text k) = false) (hv : v.isScalar = true) :
    ∃ hits : String → Bool,
      (∀ k ∈ pairs.map (·.1), e.Answers o (.ofPairs [(k, v)]) (.ofPairs pairs) ((Literal.parse v).negated ^^ hits k)) ∧
      e.Answers o v (.ofPairs pairs) ((Literal.parse v).negated ^^ (pairs.map (·.1)).any hits) := by
  obtain ⟨hits, hhits⟩ := h.exists_hits (Literal.parse_plain v)
  have hvalue : ∀ p ∈ pairs, Path.resolve (.ofPairs pairs) (Path.segments p.1) = p.2 := fun p hp =>
    Value.resolve_ofPairs hkeys hp (hplain p.1 (List.mem_map_of_mem hp)).1
  refine ⟨fun k => hits (Path.resolve (.ofPairs pairs) (Path.segments k)), fun k hk => ?_, ?_⟩
  · refine h.answers_field (hplain k hk).2 (Grammar.checkCondition_scalar hv 1 _) ?_
    rw [holds, Condition.holds, Terms.matchesLiteral]
    cases (Literal.parse v).negated with
    | false => rw [if_neg Bool.false_ne_true, hhits, Bool.false_xor]
    | true => rw [if_pos rfl, run_negation, hhits, map_ok, Bool.true_xor]
  · refine h.answers_iff.2 ⟨_, Grammar.check_scalar hv, ?_⟩
    have hany : (anyItem ((o.terms e.now e.environment.functions).hitsLiteral (.parse v))
        (Value.ofPairs pairs).properties).run (compileAnswer e.patterns.maxLength) =
          .ok ((pairs.map (·.1)).any fun k => hits (Path.resolve (.ofPairs pairs) (Path.segments k))) := by
      rw [run_anyItem fun actual _ => hhits actual, Value.ofPairs, Value.properties, List.map_map, List.any_map,
        List.any_map]
      refine congrArg Except.ok (any_eq_of_forall₂ (R := Eq) (List.forall₂_same.2 fun _ _ => rfl) ?_)
      rintro p hp _ - rfl
      exact congrArg hits (hvalue p hp).symm
    have hproperty (l : Literal) : (o.terms e.now e.environment.functions).matchesProperty l (.ofPairs pairs) =
        if l.negated then
          (anyItem ((o.terms e.now e.environment.functions).hitsLiteral l) (Value.ofPairs pairs).properties).negation
        else anyItem ((o.terms e.now e.environment.functions).hitsLiteral l) (Value.ofPairs pairs).properties := rfl
    rw [passes, Node.matches, hproperty]
    cases (Literal.parse v).negated with
    | false => rw [if_neg Bool.false_ne_true, hany, Bool.false_xor]
    | true => rw [if_pos rfl, run_negation, hany, map_ok, Bool.true_xor]

theorem someField {pairs : List (String × Value)} (hkeys : (pairs.map (·.1)).Nodup)
    (hplain : ∀ k ∈ pairs.map (·.1), '.' ∉ k.toList ∧ isOperatorKey (.text k) = false) (hv : v.isScalar = true)
    (hunnegated : ∀ s, v = .text s → isNegated s = false) :
    ∃ matched : String → Bool,
      (∀ k ∈ pairs.map (·.1), e.Answers o (.ofPairs [(k, v)]) (.ofPairs pairs) (matched k)) ∧
      e.Answers o v (.ofPairs pairs) ((pairs.map (·.1)).any matched) := by
  have hfields := h.fields hkeys hplain hv
  simp only [Literal.negated_parse hunnegated, Bool.false_xor] at hfields
  exact hfields

theorem everyField {pairs : List (String × Value)} (hkeys : (pairs.map (·.1)).Nodup)
    (hplain : ∀ k ∈ pairs.map (·.1), '.' ∉ k.toList ∧ isOperatorKey (.text k) = false) (s : String) :
    ∃ matched : String → Bool,
      (∀ k ∈ pairs.map (·.1), e.Answers o (.ofPairs [(k, .text (negated s))]) (.ofPairs pairs) (matched k)) ∧
      e.Answers o (.text (negated s)) (.ofPairs pairs) ((pairs.map (·.1)).all matched) := by
  obtain ⟨hits, hfields, hwhole⟩ := h.fields (v := .text (negated s)) hkeys hplain rfl
  have hnegated : (Literal.parse (.text (negated s))).negated = true := by rw [parse_negated, Literal.ofText]
  simp only [hnegated, Bool.true_xor] at hfields hwhole
  rw [List.not_any_eq_all_not] at hwhole
  exact ⟨fun k => !hits k, hfields, hwhole⟩

end Reads

/-- On every engine that can come about, with the built-in operators that shorthands stand for in its table, and
whatever the options are but for a comparator, what is short is matched like what is spelled out. -/
theorem shorthands_spelled_out (hmake : Engine.make? settings t shared environment now = .ok e₀)
    (hreached : e₀.Reached e) (htable : e.table.HoldsShorthands)
    (hcomparator : o.customComparator = none) (hleast : 1 ≤ o.maxDepth) (hmost : o.maxDepth ≤ 10) : e.SpellsOut o := by
  have h : e.Reads o := ⟨(hreached.usable hmake).patterns, htable, hcomparator, hleast, hmost⟩
  exact
    { equal := fun hf _ hv hexact => h.equal hf hv hexact
      unequal := fun hf _ hs => h.unequal hf hs
      member := fun hf _ _ hv hexact => h.member hf hv hexact
      negation := fun hpure _ hf _ hwell hv hdepth => h.negation hpure hf hwell hv hdepth
      someField := fun hkeys hplain _ hv hunnegated => h.someField hkeys hplain hv hunnegated
      everyField := fun hkeys hplain s => h.everyField hkeys hplain s }

/-- A text that starts with `!` itself, members that are missing or look negated, and a record with a field for the
scalar alone. -/
theorem shorthands_spelled_out_marks : ∃ e, IsStandard e ∧
    e.Coincide {} (.ofPairs [("a.b", .text "!!x")]) (.ofPairs [("a.b", .ofPairs [("$ne", .text "!x")])]) ∧
    e.Coincide {} (.ofPairs [("a", .list [.null, .text "!x"])])
      (.ofPairs [("a", .ofPairs [("$in", .list [.null, .text "!x"])])]) ∧
    (∀ record matched, e.Answers {} (.ofPairs [("a", .ofPairs [(notKey, .text "!x%")])]) record matched ↔
      e.Answers {} (.ofPairs [(notKey, .ofPairs [("a", .text "!x%")])]) record matched) ∧
    ∃ matched : String → Bool,
      (∀ k ∈ ["a", "b"], e.Answers {} (.ofPairs [(k, .int 1)]) (.ofPairs [("a", .null), ("b", .int 1)]) (matched k)) ∧
      e.Answers {} (.int 1) (.ofPairs [("a", .null), ("b", .int 1)]) (["a", "b"].any matched) := by
  obtain ⟨e, he⟩ := exists_isStandard
  have htable : e.table = Table.builtins := (make?_made he).table
  have hholds : e.table.HoldsShorthands :=
    htable ▸ ⟨Table.find?_builtin .eq, Table.find?_builtin .ne, Table.find?_builtin .isIn⟩
  have hpure : e.table.ChecksPurely e.environment.functions := htable ▸ Table.builtins_checksPurely _
  have h : e.SpellsOut {} := shorthands_spelled_out he .start hholds rfl (by decide) (by decide)
  have hunequal := h.unequal (f := "a.b") (by decide) (s := "!x") (by decide)
  have hmember := h.member (f := "a") (by decide) (v := .list [.null, .text "!x"]) rfl (by simp [occurs])
  have hnegation := h.negation hpure (f := "a") (by decide) (v := .text "!x%") (Value.wellMapped_atom rfl trivial)
    (.inl rfl) (by decide)
  have hkeys : ([("a", Value.null), ("b", .int 1)].map (·.1)).Nodup := by decide
  exact ⟨e, he, hunequal, hmember, hnegation.2, h.someField hkeys (by decide) (v := .int 1) rfl (by simp)⟩

end Engine
end Winnow
