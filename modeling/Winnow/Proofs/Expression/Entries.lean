import Winnow.Proofs.Expression.Depth
/-! # Checks entry by entry

The check of a mapping is the check of its entries, one after the other. -/

namespace Winnow.Grammar

variable (g : Grammar)

/-- The test of one entry of a map of operators. -/
def testOf (map : Value) (path : String) (e : Value × Value) : Outcome Test :=
  if e.1.display = notKey then
    (checkNegated g e.2 (Path.join path e.1.display)).map fun condition => .negate condition e.2
  else checkTest g map e.1.display e.2 (Path.join path e.1.display)

theorem checkTests_eq (map : Value) (path : String) (es : List (Value × Value)) :
    checkTests g map path es = es.mapM (testOf g map path) := by
  induction es with
  | nil => rfl
  | cons e es ih =>
    rcases e with ⟨k, operand⟩
    rw [List.mapM_cons, ← ih, checkTests, testOf]
    simp only
    split
    · cases checkNegated g operand (Path.join path k.display) <;> rfl
    · rfl

/-- The node of one entry of an object. -/
def nodeOf (depth : Nat) (path : String) (expression : Value) (e : Value × Value) : Outcome Node :=
  match e.1 with
  | .text key =>
    let path' := Path.join path key
    if key = andKey ∨ key = orKey then g.checkJunction key depth path' e.2
    else if key = notKey then g.checkNot depth path' e.2
    else if isOperatorKey e.1 then do
      let info ← g.table.lookup key path expression
      reject (.operatorOutsideField info.name) expression path
    else (g.checkCondition depth path' e.2).map (.field key)
  | k => reject (.fieldNotText k) expression path

theorem checkEntries_eq (depth : Nat) (path : String) (expression : Value) (es : List (Value × Value)) :
    g.checkEntries depth path expression es = es.mapM (g.nodeOf depth path expression) := by
  induction es with
  | nil => rfl
  | cons e es ih =>
    rcases e with ⟨k, v⟩
    rw [List.mapM_cons, ← ih]
    cases k with
    | text key =>
      rw [Grammar.checkEntries, nodeOf]
      simp only
      split
      · rfl
      split
      · rfl
      split
      · cases g.table.lookup key path expression <;> rfl
      · rfl
    | _ => rfl

variable {g}

/-- The node of an entry whose key is no operator. -/
theorem nodeOf_field {depth : Nat} {path key : String} {expression v : Value} (hkey : isOperatorKey (.text key) = false) :
    g.nodeOf depth path expression (.text key, v) = (g.checkCondition depth (Path.join path key) v).map (.field key) := by
  have hne {k : String} (hk : isOperatorKey (.text k) = true) : key ≠ k := by
    rintro rfl
    rw [hk] at hkey
    cases hkey
  have hjunction : ¬(key = andKey ∨ key = orKey) := not_or.2 ⟨hne rfl, hne rfl⟩
  rw [nodeOf]
  simp only [hjunction, if_false, hne (k := notKey) rfl, hkey, Bool.false_eq_true]

/-- An object with one entry is accepted when it is not too deep and the entry is accepted. -/
theorem object_singleton {depth : Nat} {path : String} {part : Value} {e : Value × Value} {n : Node} :
    (g.object depth path part fun _ => g.checkEntries depth path part [e]) = .ok n ↔
      depth ≤ g.maxDepth ∧ g.nodeOf depth path part e = .ok n := by
  rw [object, checkEntries_eq, List.mapM_cons]
  split
  · next hlimit => exact ⟨nofun, fun h => absurd h.1 (Nat.not_le.2 hlimit)⟩
  · next hlimit =>
    rw [and_iff_right (Nat.le_of_not_lt hlimit)]
    cases g.nodeOf depth path part e <;> exact Iff.rfl

theorem object_field {depth : Nat} {path key : String} {part v : Value} {n : Node}
    (hkey : isOperatorKey (.text key) = false) :
    (g.object depth path part fun _ => g.checkEntries depth path part [(.text key, v)]) = .ok n ↔
      depth ≤ g.maxDepth ∧ ∃ c, g.checkCondition depth (Path.join path key) v = .ok c ∧ n = .field key c := by
  rw [object_singleton, nodeOf_field hkey, Outcome.map_eq_ok]
  simp only [eq_comm]

/-- An object with one field is accepted when the condition on the field is. -/
theorem check_field {key : String} {v : Value} {n : Node} (hkey : isOperatorKey (.text key) = false) :
    g.check (.ofPairs [(key, v)]) = .ok n ↔
      1 ≤ g.maxDepth ∧ ∃ c, g.checkCondition 1 (Path.join "" key) v = .ok c ∧ n = .field key c :=
  object_field hkey

/-- The negation of an object with one field is one level deeper. -/
theorem check_not_field {key : String} {v : Value} {n : Node} (hkey : isOperatorKey (.text key) = false) :
    g.check (.ofPairs [(notKey, .ofPairs [(key, v)])]) = .ok n ↔ 2 ≤ g.maxDepth ∧
      ∃ c, g.checkCondition 2 (Path.join (Path.join "" notKey) key) v = .ok c ∧ n = .not (.field key c) := by
  have hentry (part : Value) : g.nodeOf 1 "" part (.text notKey, .ofPairs [(key, v)]) =
      (g.object 2 (Path.join "" notKey) (.ofPairs [(key, v)]) fun _ =>
        g.checkEntries 2 (Path.join "" notKey) (.ofPairs [(key, v)]) [(.text key, v)]).map .not := rfl
  refine object_singleton.trans ?_
  rw [hentry, Outcome.map_eq_ok]
  simp only [object_field hkey]
  constructor
  · rintro ⟨-, _, ⟨hlimit, c, hc, rfl⟩, rfl⟩
    exact ⟨hlimit, c, hc, rfl⟩
  · rintro ⟨hlimit, c, hc, rfl⟩
    exact ⟨Nat.le_of_succ_le hlimit, _, ⟨hlimit, c, hc, rfl⟩, rfl⟩

/-- A condition with one operator is the test of its one entry. -/
theorem checkCondition_test {key : String} (hkey : isOperatorKey (.text key) = true) (depth : Nat) (path : String)
    (v : Value) : g.checkCondition depth path (.ofPairs [(key, v)]) =
      (testOf g (.ofPairs [(key, v)]) path (.text key, v)).map fun test => .tests [test] := by
  have hpairs : Value.ofPairs [(key, v)] = .object [(.text key, v)] := rfl
  rw [hpairs, checkCondition_operators (by simp [Value.hasOperator, hkey]), if_neg (by simp [hkey]), checkTests_eq,
    List.mapM_cons]
  cases testOf g (.object [(.text key, v)]) path (.text key, v) <;> rfl

end Winnow.Grammar

namespace Winnow

variable {b : Builtin}

theorem Builtin.isOperatorKey_key (b : Builtin) : isOperatorKey (.text b.key) = true := by
  cases b <;> decide

theorem Builtin.key_ne_notKey (b : Builtin) : b.key ≠ notKey := by
  cases b <;> decide

/-- A condition with one built-in operator is accepted when the operator accepts its operand. -/
theorem Grammar.checkCondition_builtin {g : Grammar} (hinfo : g.table.find? b.key = some (.ofBuiltin b)) (depth : Nat)
    (path : String) (v : Value) : g.checkCondition depth path (.ofPairs [(b.key, v)]) =
      (b.check v (Path.join path b.key)).map fun o => .tests [.apply b.key o v] := by
  rw [checkCondition_test b.isOperatorKey_key, testOf]
  simp only [Value.display, b.key_ne_notKey, if_false, checkTest, Table.lookup, hinfo]
  show Except.map _ (Except.map _ (b.check v (Path.join path b.key))) = _
  cases b.check v (Path.join path b.key) <;> rfl

end Winnow
