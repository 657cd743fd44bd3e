import Winnow.Proofs.Outcome
import Winnow.Expression.Validation
/-! # How deep expressions nest

`Value.depth` reads the nesting of an expression object off its written form. A check with a lower limit goes
as the check that accepted the expression, up to the first object that is too deep (`Cut`): the parts of an
expression are one level deeper than the expression, so that object is one level too deep. Hence an expression
is accepted at exactly the limits from its depth on, with one and the same tree. -/

namespace Winnow

namespace Value

/-- Is the value a mapping with an operator among its keys? -/
def hasOperator : Value → Bool
  | object es => es.any fun e => isOperatorKey e.1
  | _ => false

theorem isEmpty_operators (es : List (Value × Value)) :
    (!((es.map (·.1)).filter isOperatorKey).isEmpty) = (object es).hasOperator := by
  rw [Bool.eq_iff_iff]
  simp [hasOperator]

mutual

/-- How many levels an expression object has: one more than the deepest expression in it. -/
def depth : Value → Nat
  | object es => 1 + depthWithin es
  | _ => 0
termination_by structural v => v

/-- The depth of the deepest expression under a key: the items of a junction, what is negated, and the nested
objects of fields, which have no operators. -/
def depthWithin : List (Value × Value) → Nat
  | [] => 0
  | (k, v) :: es =>
    let here :=
      match k with
      | text key =>
        if key = andKey ∨ key = orKey then itemDepth v
        else if key = notKey then depth v
        else if v.hasOperator then 0
        else depth v
      | _ => 0
    max here (depthWithin es)
termination_by structural es => es

def itemDepth : Value → Nat
  | list items | tuple items => depthAmong items
  | _ => 0
termination_by structural v => v

def depthAmong : List Value → Nat
  | [] => 0
  | v :: vs => max (depth v) (depthAmong vs)
termination_by structural vs => vs

end

end Value

/-! ## Limits -/

/-- Has the second outcome the result of the first one if it fits, and does it find a level that is one too
deep if not? -/
def Cut {α : Type} (limit : Nat) (fits : Prop) (whole cut : Outcome α) : Prop :=
  ∀ a, whole = .ok a → (fits → cut = .ok a) ∧
    (¬fits → ∃ part path, cut = .error (.expression (.tooDeep (limit + 1) limit) part path))

namespace Cut

variable {α β : Type} {limit : Nat} {p q : Prop} {x y : Outcome α}

theorem of_eq (hp : p) (h : x = y) : Cut limit p x y := by
  intro a ha
  exact ⟨fun _ => h ▸ ha, fun hnot => absurd hp hnot⟩

theorem of_error {e : Failure} : Cut limit p (.error e) y := fun _ ha => nomatch ha

theorem congr (h : Cut limit p x y) (hpq : p ↔ q) : Cut limit q x y := by
  intro a ha
  obtain ⟨hfits, hnot⟩ := h a ha
  exact ⟨fun hq => hfits (hpq.2 hq), fun hq => hnot fun hp => hq (hpq.1 hp)⟩

/-- The first part that does not fit ends a chain. -/
theorem bind {f g : α → Outcome β} (h : Cut limit p x y) (hf : ∀ a, Cut limit q (f a) (g a)) :
    Cut limit (p ∧ q) (x >>= f) (y >>= g) := by
  intro b hb
  obtain ⟨a, ha, hb⟩ := Outcome.bind_eq_ok.1 hb
  obtain ⟨hfits, hnot⟩ := h a ha
  obtain ⟨hfits', hnot'⟩ := hf a b hb
  refine ⟨fun ⟨hp, hq⟩ => ?_, fun hpq => ?_⟩
  · rw [hfits hp, Outcome.ok_bind, hfits' hq]
  · by_cases hp : p
    · rw [hfits hp, Outcome.ok_bind]
      exact hnot' fun hq => hpq ⟨hp, hq⟩
    · obtain ⟨part, path, hy⟩ := hnot hp
      exact ⟨part, path, by rw [hy, Outcome.error_bind]⟩

theorem map (h : Cut limit p x y) (f : α → β) : Cut limit p (x.map f) (y.map f) := by
  have hbind := h.bind (q := True) fun a => of_eq trivial (rfl : Except.ok (f a) = .ok (f a))
  rw [← Outcome.bind_pure_eq, ← Outcome.bind_pure_eq]
  exact hbind.congr (and_iff_left trivial)

end Cut

namespace Grammar

/-- The check of a map with an operator: no field stands beside it, and every entry is a test. -/
theorem checkCondition_operators {g : Grammar} {es : List (Value × Value)} (h : (Value.object es).hasOperator = true)
    (depth : Nat) (path : String) : g.checkCondition depth path (.object es) =
      if ((es.map (·.1)).filter isOperatorKey).length != (es.map (·.1)).length then
        reject (.mixedKeys ((es.map (·.1)).filter isOperatorKey) ((es.map (·.1)).filter fun k => !isOperatorKey k))
          (.object es) path
      else (checkTests g (.object es) path es).map .tests := by
  rw [checkCondition]
  simp only [Value.isEmpty_operators, h, Bool.true_and, if_true]

/-- The check of a map without operators is that of an object one level deeper. -/
theorem checkCondition_nested {g : Grammar} {es : List (Value × Value)} (h : (Value.object es).hasOperator = false)
    (depth : Nat) (path : String) : g.checkCondition depth path (.object es) =
      (g.object (depth + 1) path (.object es) fun _ => g.checkEntries (depth + 1) path (.object es) es).map .nested := by
  rw [checkCondition]
  simp only [Value.isEmpty_operators, h, Bool.false_and, Bool.false_eq_true, if_false]

/-- The grammar with another limit. -/
def within (g : Grammar) (limit : Nat) : Grammar := { g with maxDepth := limit }

variable {g : Grammar} {limit : Nat}

/-! ## Maps of operators -/

mutual

/-- No limit matters in a map of operators. -/
theorem checkTests_within (map : Value) (path : String) (es : List (Value × Value)) :
    checkTests (g.within limit) map path es = checkTests g map path es := by
  match es with
  | [] => simp only [checkTests]
  | (k, operand) :: rest =>
    have htest (key : String) (path : String) :
        checkTest (g.within limit) map key operand path = checkTest g map key operand path := rfl
    simp only [checkTests, htest, checkNegated_within operand, checkTests_within map path rest]
termination_by structural es

theorem checkNegated_within (operand : Value) (path : String) :
    checkNegated (g.within limit) operand path = checkNegated g operand path := by
  cases operand with
  | object entries => simp only [checkNegated, checkTests_within _ path entries]
  | _ => rfl
termination_by structural operand

end

/-! ## Objects -/

/-- An object that is no more than one level too deep is found to be so, or else cut where its entries are. -/
theorem cut_object {depth n : Nat} {path : String} {part : Value} {items items' : Unit → Outcome (List Node)}
    (hdepth : depth ≤ limit + 1) (h : depth ≤ limit → Cut limit (depth + n ≤ limit) (items ()) (items' ())) :
    Cut limit (depth + n ≤ limit) (g.object depth path part items)
      ((g.within limit).object depth path part items') := by
  have hlimit : (g.within limit).maxDepth = limit := rfl
  unfold object
  rw [hlimit]
  split
  · exact .of_error
  split
  · next hdeep =>
    obtain rfl : depth = limit + 1 := by omega
    exact fun _ _ => ⟨fun hle => absurd hle (by omega), fun _ => ⟨part, path, rfl⟩⟩
  · next hlevel => exact (h (Nat.le_of_not_lt hlevel)).map conjunction

mutual

theorem cut_checkEntries {depth : Nat} (hdepth : depth ≤ limit) (path : String) (part : Value)
    (es : List (Value × Value)) : Cut limit (depth + Value.depthWithin es ≤ limit)
      (g.checkEntries depth path part es) ((g.within limit).checkEntries depth path part es) := by
  match es with
  | [] => exact .of_eq hdepth (by simp only [checkEntries])
  | (k, v) :: rest =>
    have hrest (node : Node) : Cut limit (depth + Value.depthWithin rest ≤ limit)
        (do return node :: (← g.checkEntries depth path part rest))
        (do return node :: (← (g.within limit).checkEntries depth path part rest)) := by
      rw [Outcome.bind_pure_eq, Outcome.bind_pure_eq]
      exact (cut_checkEntries hdepth path part rest).map _
    have hmax (n m : Nat) : depth + n ≤ limit ∧ depth + m ≤ limit ↔ depth + max n m ≤ limit := by omega
    cases k with
    | text key =>
      rw [checkEntries, checkEntries, Value.depthWithin]
      simp only
      rw [← hmax]
      split
      · exact .bind (cut_checkJunction hdepth key _ v) hrest
      split
      · exact .bind (cut_checkNot hdepth _ v) hrest
      by_cases hoperator : isOperatorKey (.text key) = true
      · rw [if_pos hoperator]
        cases g.table.lookup key path part <;> exact .of_error
      · rw [if_neg hoperator, if_neg hoperator]
        exact .bind ((cut_checkCondition hdepth _ v).map _) hrest
    | _ => exact .of_error
termination_by structural es

theorem cut_checkJunction {depth : Nat} (hdepth : depth ≤ limit) (key path : String) (v : Value) :
    Cut limit (depth + v.itemDepth ≤ limit) (g.checkJunction key depth path v)
      ((g.within limit).checkJunction key depth path v) := by
  cases v with
  | list items | tuple items =>
    rw [checkJunction, checkJunction, Value.itemDepth]
    exact (cut_checkItems hdepth key path 0 items).map _
  | _ => exact .of_error
termination_by structural v

theorem cut_checkItems {depth : Nat} (hdepth : depth ≤ limit) (key path : String) (place : Nat)
    (vs : List Value) : Cut limit (depth + Value.depthAmong vs ≤ limit)
      (g.checkItems key depth path place vs) ((g.within limit).checkItems key depth path place vs) := by
  match vs with
  | [] => exact .of_eq hdepth (by simp only [checkItems])
  | v :: rest =>
    have hrest (node : Node) : Cut limit (depth + Value.depthAmong rest ≤ limit)
        (do return node :: (← g.checkItems key depth path (place + 1) rest))
        (do return node :: (← (g.within limit).checkItems key depth path (place + 1) rest)) := by
      rw [Outcome.bind_pure_eq, Outcome.bind_pure_eq]
      exact (cut_checkItems hdepth key path (place + 1) rest).map _
    have hmax (n m : Nat) : depth + 1 + n ≤ limit ∧ depth + m ≤ limit ↔ depth + max (1 + n) m ≤ limit := by
      omega
    cases v with
    | object entries =>
      rw [checkItems, checkItems, Value.depthAmong, Value.depth, ← hmax]
      exact .bind (cut_object (by omega) fun hlevel => cut_checkEntries hlevel _ _ entries) hrest
    | _ => exact .of_error
termination_by structural vs

theorem cut_checkNot {depth : Nat} (hdepth : depth ≤ limit) (path : String) (v : Value) :
    Cut limit (depth + v.depth ≤ limit) (g.checkNot depth path v) ((g.within limit).checkNot depth path v) := by
  cases v with
  | object entries =>
    rw [checkNot, checkNot, Value.depth, ← Nat.add_assoc]
    exact (cut_object (by omega) fun hlevel => cut_checkEntries hlevel path _ entries).map _
  | _ => exact .of_error
termination_by structural v

theorem cut_checkCondition {depth : Nat} (hdepth : depth ≤ limit) (path : String) (v : Value) :
    Cut limit (depth + (if v.hasOperator then 0 else v.depth) ≤ limit) (g.checkCondition depth path v)
      ((g.within limit).checkCondition depth path v) := by
  cases v with
  | object entries =>
    cases hoperator : (Value.object entries).hasOperator with
    | true =>
      rw [checkCondition_operators hoperator, checkCondition_operators hoperator, checkTests_within, if_pos rfl]
      split
      · exact .of_error
      · exact .of_eq hdepth rfl
    | false =>
      rw [checkCondition_nested hoperator, checkCondition_nested hoperator, if_neg Bool.false_ne_true, Value.depth,
        ← Nat.add_assoc]
      exact (cut_object (by omega) fun hlevel => cut_checkEntries hlevel path _ entries).map _
  | list | tuple => exact .of_eq hdepth (by simp only [checkCondition])
  | _ => exact .of_eq hdepth (by simp only [checkCondition])
termination_by structural v

end

theorem cut_check (least : 1 ≤ limit) (es : List (Value × Value)) :
    Cut limit ((Value.object es).depth ≤ limit) (g.check (.object es)) ((g.within limit).check (.object es)) := by
  rw [check, check, Value.depth]
  exact cut_object (Nat.le_succ_of_le least) fun hlevel => cut_checkEntries hlevel "" _ es

end Grammar

/-! ## Validation -/

theorem readMaxDepth_eq_ok {v : Value} {n : Nat} : readMaxDepth v = .ok n ↔ v = .int n ∧ 1 ≤ n ∧ n ≤ 10 := by
  cases v with
  | int i =>
    rw [readMaxDepth, Value.int.injEq]
    by_cases hi : i < minMaxDepth ∨ maxMaxDepth < i
    · rw [if_pos hi]
      rw [minMaxDepth, maxMaxDepth] at hi
      exact iff_of_false nofun (by omega)
    · rw [if_neg hi, Except.ok.injEq]
      rw [minMaxDepth, maxMaxDepth] at hi
      omega
  | _ => exact iff_of_false nofun nofun

theorem readMaxDepth_natCast {d : Nat} (least : 1 ≤ d) (most : d ≤ 10) : readMaxDepth (.int d) = .ok d :=
  readMaxDepth_eq_ok.2 ⟨rfl, least, most⟩

theorem validate_int {d : Nat} (least : 1 ≤ d) (most : d ≤ 10) (table : Table) (functions : Functions)
    (expression : Value) : validate table functions (.int d) expression =
      (Grammar.mk table functions d).check expression := by
  rw [validate, readMaxDepth_natCast least most, Outcome.ok_bind]

/-- An object that is accepted at the largest limit is accepted, as the same tree, at the limits from its depth
on; with any lower limit a level is found that is one too deep. -/
theorem validate_at_limit {table : Table} {functions : Functions} {es : List (Value × Value)} {n : Node}
    (h : validate table functions (.int 10) (.object es) = .ok n) {d : Nat} (least : 1 ≤ d) (most : d ≤ 10) :
    ((Value.object es).depth ≤ d → validate table functions (.int d) (.object es) = .ok n) ∧
      (d < (Value.object es).depth → ∃ part path, validate table functions (.int d) (.object es) =
        .error (.expression (.tooDeep (d + 1) d) part path)) := by
  have hwhole : (Grammar.mk table functions 10).check (.object es) = .ok n :=
    (validate_int (d := 10) (by decide) (by decide) ..).symm.trans h
  obtain ⟨hfits, hnot⟩ := Grammar.cut_check least es n hwhole
  rw [validate_int least most]
  exact ⟨hfits, fun hlt => hnot (Nat.not_le.2 hlt)⟩

/-- A query two levels deep: what tests a field and what a field's test negates are on the level of the field. -/
def twoLevels : Value :=
  .ofPairs [("name", .ofPairs [("first", .ofPairs [("$not", .ofPairs [("$eq", .text "A")])])]),
    ("$or", .list [.ofPairs [("age", .ofPairs [("$gt", .int 5)])], .ofPairs [("tags", .list [.text "x"])]])]

theorem validate_at_limit_two_levels : ∃ n,
    validate Table.builtins Functions.standard (.int 10) twoLevels = .ok n ∧
    validate Table.builtins Functions.standard (.int 2) twoLevels = .ok n ∧
    ∃ part path, validate Table.builtins Functions.standard (.int 1) twoLevels =
      .error (.expression (.tooDeep 2 1) part path) := by
  obtain ⟨n, hn⟩ : ∃ n, validate Table.builtins Functions.standard (.int 10) twoLevels = .ok n :=
    Outcome.exists_eq_ok rfl
  have hdepth : twoLevels.depth = 2 := by decide
  have htwo := validate_at_limit hn (d := 2) (by decide) (by decide)
  have hone := validate_at_limit hn (d := 1) (by decide) (by decide)
  exact ⟨n, hn, htwo.1 (Nat.le_of_eq hdepth), hone.2 (Nat.lt_of_lt_of_eq (by decide) hdepth.symm)⟩

end Winnow
