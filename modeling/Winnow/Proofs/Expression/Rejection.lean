import Winnow.Proofs.Operator.Operand
import Winnow.Expression.Validation
/-! # How expressions are rejected

A check looks at operators and their operands in order, and ends with the first part that it does not
accept. `uses` lists what it looks at. With the built-in operators a check gives a tree or rejects the
expression exactly when all operands that it looks at have a form. -/

namespace Winnow

variable {α β γ : Type}

/-! ## What a check looks at -/

/-- The list, if there is a result. -/
def onceAccepted (r : Outcome α) (rest : List γ) : List γ :=
  match r with
  | .ok _ => rest
  | .error _ => []

@[simp] theorem onceAccepted_map (r : Outcome α) (f : α → β) (rest : List γ) :
    onceAccepted (r.map f) rest = onceAccepted r rest := by
  rcases r with _ | _ <;> rfl

/-- An operator, by its key, with its operand. -/
structure Use where
  key : String
  operand : Value

namespace Grammar

variable (g : Grammar)

mutual

/-- The operators that the check of a map of operators looks at. -/
def testUses (map : Value) (path : String) : List (Value × Value) → List Use
  | [] => []
  | (k, operand) :: rest =>
    let key := k.display
    let path' := Path.join path key
    if key = notKey then
      negatedUses operand path' ++ onceAccepted (checkNegated g operand path') (testUses map path rest)
    else
      [⟨key, operand⟩] ++ onceAccepted (checkTest g map key operand path') (testUses map path rest)
termination_by structural es => es

def negatedUses (operand : Value) (path : String) : List Use :=
  match operand with
  | .object entries =>
    if entries.isEmpty || !entries.all fun e => isOperatorKey e.1 then [] else testUses operand path entries
  | _ => []
termination_by structural operand

end

/-- The uses in an object that has them if it is not too deep. -/
def objectUses (depth : Nat) (uses : List Use) : List Use := if g.maxDepth < depth then [] else uses

mutual

/-- The operators that the check of an object's entries looks at. -/
def entryUses (depth : Nat) (path : String) : List (Value × Value) → List Use
  | [] => []
  | (k, v) :: rest =>
    match k with
    | .text key =>
      let path' := Path.join path key
      if key = andKey ∨ key = orKey then
        junctionUses key depth path' v ++
          onceAccepted (g.checkJunction key depth path' v) (entryUses depth path rest)
      else if key = notKey then
        notUses depth path' v ++ onceAccepted (g.checkNot depth path' v) (entryUses depth path rest)
      else if isOperatorKey k then []
      else
        conditionUses depth path' v ++
          onceAccepted (g.checkCondition depth path' v) (entryUses depth path rest)
    | _ => []
termination_by structural es => es

def junctionUses (key : String) (depth : Nat) (path : String) (v : Value) : List Use :=
  match v with
  | .list items | .tuple items => itemUses key depth path 0 items
  | _ => []
termination_by structural v

def itemUses (key : String) (depth : Nat) (path : String) (place : Nat) : List Value → List Use
  | [] => []
  | v :: rest =>
    match v with
    | .object entries =>
      let path' := itemPath path place
      g.objectUses (depth + 1) (entryUses (depth + 1) path' entries) ++
        onceAccepted (g.object (depth + 1) path' v fun _ => g.checkEntries (depth + 1) path' v entries)
          (itemUses key depth path (place + 1) rest)
    | _ => []
termination_by structural vs => vs

def notUses (depth : Nat) (path : String) (v : Value) : List Use :=
  match v with
  | .object entries => g.objectUses (depth + 1) (entryUses (depth + 1) path entries)
  | _ => []
termination_by structural v

def conditionUses (depth : Nat) (path : String) (v : Value) : List Use :=
  match v with
  | .object entries =>
    let keys := entries.map (·.1)
    let operators := keys.filter isOperatorKey
    if !operators.isEmpty && operators.length != keys.length then []
    else if !operators.isEmpty then testUses g v path entries
    else g.objectUses (depth + 1) (entryUses (depth + 1) path entries)
  | _ => []
termination_by structural v

end

/-- The operators that the check of an expression looks at. -/
def uses (expression : Value) : List Use :=
  match expression with
  | .object entries => g.objectUses 1 (g.entryUses 1 "" entries)
  | _ => []

end Grammar

/-! ## Built-in operators -/

/-- Has the operand a form for the built-in operator under the key? -/
def Use.IsRepresented (u : Use) : Prop := ∀ b : Builtin, b.key = u.key → b.Represents u.operand

theorem documented_bind_uses {x : Outcome α} {f : α → Outcome β} {l l' : List Use} {P : Use → Prop}
    (hx : Documented x ↔ ∀ u ∈ l, P u) (hf : ∀ a, x = .ok a → (Documented (f a) ↔ ∀ u ∈ l', P u)) :
    Documented (x >>= f) ↔ ∀ u ∈ l ++ onceAccepted x l', P u := by
  rw [documented_bind, hx]
  rcases x with e | a
  · simp [onceAccepted]
  · simp only [onceAccepted, List.mem_append, or_imp, forall_and, Except.ok.injEq, forall_eq']
    rw [hf a rfl]

theorem Table.find?_builtin (b : Builtin) : Table.builtins.find? b.key = some (.ofBuiltin b) := by
  cases b <;> rfl

theorem Builtin.key_inj {b b' : Builtin} (h : b.key = b'.key) : b = b' := by
  have hfind := Table.find?_builtin b
  rw [h, Table.find?_builtin] at hfind
  have hrule : some (Rule.builtin b') = some (.builtin b) :=
    congrArg OperatorInfo.rule (Option.some.inj hfind)
  exact (Rule.builtin.inj (Option.some.inj hrule)).symm

/-- The table of built-in operators holds these and structural ones. -/
theorem Table.find?_builtins {key : String} {o : OperatorInfo} (h : Table.builtins.find? key = some o) :
    (∃ b : Builtin, o = .ofBuiltin b ∧ b.key = key) ∨ o.structural = true ∧ o.rule = none := by
  have hname : o.name = key := by simpa using List.find?_some h
  have builtin {bs : List Builtin} (ho : o ∈ bs.map OperatorInfo.ofBuiltin) :
      ∃ b : Builtin, o = .ofBuiltin b ∧ b.key = key := by
    obtain ⟨b, -, rfl⟩ := List.mem_map.1 ho
    exact ⟨b, rfl, hname⟩
  rcases List.mem_append.1 (List.mem_of_find?_eq_some h) with ho | ho
  · rcases List.mem_append.1 ho with ho | ho
    · exact .inl (builtin ho)
    · simp only [List.mem_cons, List.not_mem_nil, or_false] at ho
      rcases ho with rfl | rfl | rfl <;> exact .inr ⟨rfl, rfl⟩
  · exact .inl (builtin ho)

namespace Grammar

variable {g : Grammar}

@[simp] theorem documented_reject (e : ExpressionError) (part : Value) (path : String) :
    Documented (reject e part path : Outcome α) :=
  documented_expression e part path

theorem documented_lookup {t : Table} (name path : String) (part : Value) :
    Documented (t.lookup name path part) := by
  unfold Table.lookup
  split
  · exact documented_ok _
  · exact documented_expression _ part path

theorem documented_checkTest (hg : g.table = Table.builtins) (map : Value) (key : String) (operand : Value)
    (path : String) :
    Documented (checkTest g map key operand path) ↔ ∀ u ∈ [⟨key, operand⟩], Use.IsRepresented u := by
  simp only [List.mem_singleton, forall_eq, Use.IsRepresented]
  unfold checkTest Table.lookup
  rw [hg]
  rcases hfind : Table.builtins.find? key with _ | info
  · refine iff_of_true ?_ fun b hb => ?_
    · exact documented_bind.2 ⟨documented_expression _ map path, fun _ h => nomatch h⟩
    · rw [← hb, Table.find?_builtin] at hfind
      cases hfind
  simp only [Outcome.ok_bind]
  rcases Table.find?_builtins hfind with ⟨b, rfl, rfl⟩ | ⟨hs, -⟩
  · refine (documented_bind.trans (and_iff_left fun _ _ => documented_ok _)).trans ?_
    exact (b.documented_check operand path).trans ⟨fun h b' hb => Builtin.key_inj hb ▸ h, fun h => h b rfl⟩
  · refine iff_of_true ?_ fun b hb => ?_
    · rw [if_pos hs]
      exact documented_bind.2 ⟨documented_reject _ map path, fun _ h => nomatch h⟩
    · rw [← hb, Table.find?_builtin] at hfind
      obtain rfl := Option.some.inj hfind
      cases hs

mutual

theorem documented_checkTests (hg : g.table = Table.builtins) (map : Value) (path : String)
    (es : List (Value × Value)) :
    Documented (checkTests g map path es) ↔ ∀ u ∈ testUses g map path es, Use.IsRepresented u := by
  match es with
  | [] => simp [checkTests, testUses]
  | (k, operand) :: rest =>
    have hrest (test : Test) : Documented (do return test :: (← checkTests g map path rest)) ↔
        ∀ u ∈ testUses g map path rest, u.IsRepresented := by
      rw [Outcome.bind_pure_eq, documented_map, documented_checkTests hg map path rest]
    rw [checkTests, testUses]
    simp only
    split
    · exact documented_bind_uses (documented_checkNegated hg operand _) fun condition _ => hrest _
    · exact documented_bind_uses (documented_checkTest hg map _ operand _) fun test _ => hrest test
termination_by structural es

theorem documented_checkNegated (hg : g.table = Table.builtins) (operand : Value) (path : String) :
    Documented (checkNegated g operand path) ↔ ∀ u ∈ negatedUses g operand path, Use.IsRepresented u := by
  cases operand with
  | object entries =>
    simp only [checkNegated, negatedUses]
    split
    · simp
    · rw [documented_map, documented_checkTests hg _ path entries]
  | list | tuple => simp [checkNegated, negatedUses]
  | _ => simp [checkNegated, negatedUses]
termination_by structural operand

end

theorem documented_object {depth : Nat} {path : String} {part : Value} {items : Unit → Outcome (List Node)}
    {l : List Use} {P : Use → Prop} (h : Documented (items ()) ↔ ∀ u ∈ l, P u) :
    Documented (g.object depth path part items) ↔ ∀ u ∈ g.objectUses depth l, P u := by
  unfold object objectUses
  split
  · simp
  · rw [documented_map, h]

mutual

theorem documented_checkEntries (hg : g.table = Table.builtins) (depth : Nat) (path : String)
    (expression : Value) (es : List (Value × Value)) :
    Documented (g.checkEntries depth path expression es) ↔
      ∀ u ∈ g.entryUses depth path es, u.IsRepresented := by
  match es with
  | [] => simp [checkEntries, entryUses]
  | (k, v) :: rest =>
    have hrest (node : Node) : Documented (do return node :: (← g.checkEntries depth path expression rest)) ↔
        ∀ u ∈ g.entryUses depth path rest, u.IsRepresented := by
      rw [Outcome.bind_pure_eq, documented_map, documented_checkEntries hg depth path expression rest]
    cases k with
    | text key =>
      rw [checkEntries, entryUses]
      simp only
      split
      · exact documented_bind_uses (documented_checkJunction hg key depth _ v) fun node _ => hrest node
      split
      · exact documented_bind_uses (documented_checkNot hg depth _ v) fun node _ => hrest node
      split
      · refine iff_of_true (documented_bind.2 ⟨documented_lookup _ _ _, fun info _ => ?_⟩)
          fun _ h => nomatch h
        exact documented_bind.2 ⟨documented_reject _ _ _, fun _ h => nomatch h⟩
      · rw [← onceAccepted_map _ (Node.field key)]
        exact documented_bind_uses (documented_map.trans (documented_checkCondition hg depth _ v))
          fun node _ => hrest node
    | _ => simp [checkEntries, entryUses, reject]
termination_by structural es

theorem documented_checkJunction (hg : g.table = Table.builtins) (key : String) (depth : Nat) (path : String)
    (v : Value) :
    Documented (g.checkJunction key depth path v) ↔
      ∀ u ∈ g.junctionUses key depth path v, u.IsRepresented := by
  cases v with
  | list items | tuple items =>
    rw [checkJunction, junctionUses, documented_map, documented_checkItems hg key depth path 0 items]
  | _ => simp [checkJunction, junctionUses]
termination_by structural v

theorem documented_checkItems (hg : g.table = Table.builtins) (key : String) (depth : Nat) (path : String)
    (place : Nat) (vs : List Value) :
    Documented (g.checkItems key depth path place vs) ↔
      ∀ u ∈ g.itemUses key depth path place vs, u.IsRepresented := by
  match vs with
  | [] => simp [checkItems, itemUses]
  | v :: rest =>
    have hrest (node : Node) :
        Documented (do return node :: (← g.checkItems key depth path (place + 1) rest)) ↔
        ∀ u ∈ g.itemUses key depth path (place + 1) rest, u.IsRepresented := by
      rw [Outcome.bind_pure_eq, documented_map, documented_checkItems hg key depth path (place + 1) rest]
    cases v with
    | object entries =>
      rw [checkItems, itemUses]
      exact documented_bind_uses (documented_object (documented_checkEntries hg (depth + 1) _ _ entries))
        fun node _ => hrest node
    | _ => simp [checkItems, itemUses, reject]
termination_by structural vs

theorem documented_checkNot (hg : g.table = Table.builtins) (depth : Nat) (path : String) (v : Value) :
    Documented (g.checkNot depth path v) ↔ ∀ u ∈ g.notUses depth path v, u.IsRepresented := by
  cases v with
  | object entries =>
    rw [checkNot, notUses, documented_map]
    exact documented_object (documented_checkEntries hg (depth + 1) path _ entries)
  | _ => simp [checkNot, notUses]
termination_by structural v

theorem documented_checkCondition (hg : g.table = Table.builtins) (depth : Nat) (path : String) (v : Value) :
    Documented (g.checkCondition depth path v) ↔ ∀ u ∈ g.conditionUses depth path v, u.IsRepresented := by
  cases v with
  | object entries =>
    rw [checkCondition, conditionUses]
    split
    · simp
    split
    · rw [documented_map, documented_checkTests hg _ path entries]
    · rw [documented_map]
      exact documented_object (documented_checkEntries hg (depth + 1) path _ entries)
  | _ => simp [checkCondition, conditionUses]
termination_by structural v

end

theorem documented_check (hg : g.table = Table.builtins) (expression : Value) :
    Documented (g.check expression) ↔ ∀ u ∈ g.uses expression, u.IsRepresented := by
  cases expression with
  | object entries =>
    rw [check, uses]
    exact documented_object (documented_checkEntries hg 1 "" _ entries)
  | callable c => cases c <;> simp [check, uses]
  | _ => simp [check, uses]

end Grammar

/-! ## Validation -/

/-- A query for the records of which a field passes an operator. -/
def testQuery (b : Builtin) (operand : Value) : Value := .ofPairs [("f", .ofPairs [(b.key, operand)])]

/-- A query for the vicinity of a point whose latitude is a whole number that no machine word holds. -/
def hugeQuery : Value :=
  testQuery .near (.ofPairs
    [("center", .ofPairs [("lat", .int 18446744073709551616), ("lng", .int 0)]),
      ("maxDistanceMeters", .int 1)])

end Winnow
