import Winnow.Proofs.Operator.Meaning
import Winnow.Proofs.Operator.Resembling
import Winnow.Proofs.Value.Reordered
/-! # Operands with their mappings reordered

An operator that accepts an operand accepts it in any order of its entries, and tests alike with it. -/

namespace Winnow
open Value Outcome

variable {v w : Value}

namespace Value.Reordered

theorem isArray (h : Reordered v w) : v.isArray = w.isArray := by cases h <;> rfl

end Value.Reordered

/-! ## Comparisons -/

/-- Comparison with a value that is neither null nor a text is equality within a family. -/
theorem Value.matchesValue_of_other {caseSensitive : Bool} {actual e : Value} (he : e.family = .other)
    (hnull : e.isNull = false) : actual.matchesValue caseSensitive e =
      (!actual.isMissing && (actual.family == .other && actual.equal e)) := by
  unfold matchesValue
  split
  · rw [hnull]
    rfl
  · cases he
  · next hmissing _ =>
    have hactual : actual.isMissing = false := by
      cases actual <;> first | rfl | exact absurd rfl hmissing
    rw [he, hactual]
    rfl

variable (t : Terms)

theorem matchesValue_reordered (h : Reordered v w) (hv : v.WellMapped) (caseSensitive : Bool) (actual : Value) :
    actual.matchesValue caseSensitive v = actual.matchesValue caseSensitive w := by
  have hequal := equal_reordered h hv actual
  cases h with
  | refl => rfl
  | _ => rw [matchesValue_of_other rfl rfl, matchesValue_of_other rfl rfl, hequal]

theorem matchesThrough_reordered (h : Reordered v w) (hv : v.WellMapped) (caseSensitive : Bool)
    (actual : Value) : actual.matchesThrough caseSensitive v = actual.matchesThrough caseSensitive w := by
  unfold matchesThrough
  rw [h.isArray, matchesValue_reordered h hv]
  simp only [matchesValue_reordered h hv]

theorem containsValue_reordered (h : Reordered v w) (hv : v.WellMapped) (actual : Value) :
    Builtin.containsValue t actual v = Builtin.containsValue t actual w := by
  cases hi : actual.items? with
  | some items =>
    unfold Builtin.containsValue
    rw [hi]
    simp only [matchesValue_reordered h hv]
  | none =>
    cases h with
    | refl => rfl
    | _ => cases actual <;> first | rfl | cases hi

section

variable {xs ys : List Value}

theorem isInItems_reordered (h : List.Forall₂ Reordered xs ys) (hxs : ∀ x ∈ xs, x.WellMapped) (actual : Value) :
    Builtin.isInItems t actual xs = Builtin.isInItems t actual ys :=
  any_eq_of_forall₂ h fun x hx _ _ hxy => matchesThrough_reordered hxy (hxs x hx) _ actual

theorem hasAll_reordered (h : List.Forall₂ Reordered xs ys) (hxs : ∀ x ∈ xs, x.WellMapped) (actual : Value) :
    Builtin.hasAll t actual xs = Builtin.hasAll t actual ys := by
  unfold Builtin.hasAll
  cases actual.items? with
  | none => rfl
  | some items =>
    refine all_eq_of_forall₂ h fun x hx y _ hxy => ?_
    simp only [matchesValue_reordered hxy (hxs x hx)]

end

/-! ## Checks -/

/-- Operators that take the items of an operand. -/
theorem Operand.Site.array_reordered {path : String} (h : Reordered v w) (hv : v.WellMapped) :
    Follows (fun o o' => ∃ xs ys, o = .items xs ∧ o' = .items ys ∧ List.Forall₂ Reordered xs ys ∧
      ∀ x ∈ xs, x.WellMapped) (array ⟨v, path⟩) (array ⟨w, path⟩) := by
  have hparts : ∀ u ∈ v.parts, u.WellMapped := fun u hu => hv.part hu
  cases h with
  | refl =>
    cases v with
    | list items | tuple items | set items =>
      exact .ok ⟨items, items, rfl, rfl, List.forall₂_same.2 fun x _ => .refl x, hparts⟩
    | _ => exact .error _ _
  | list h | tuple h => exact .ok ⟨_, _, rfl, rfl, h, hparts⟩
  | object | record => exact .error _ _

namespace Builtin

/-- Does every value pass the operator with either operand, or with neither? -/
def Interchangeable (b : Builtin) (o o' : Operand) : Prop :=
  ∀ (t : Terms) (actual : Value), b.test t actual o = b.test t actual o'

theorem Interchangeable.refl (b : Builtin) (o : Operand) : b.Interchangeable o o := fun _ _ => rfl

theorem Interchangeable.of_eq {b : Builtin} {o o' : Operand} (h : o = o') : b.Interchangeable o o' :=
  h ▸ refl b o

/-- An operator accepts an operand in any order of its entries, and tests alike with it. -/
theorem check_reordered (b : Builtin) (h : Reordered v w) (hv : v.WellMapped) (path : String) :
    Follows b.Interchangeable (b.check v path) (b.check w path) := by
  have hsame {o o' : Outcome Operand} (h : Follows Eq o o') : Follows b.Interchangeable o o' :=
    h.mono fun _ _ => .of_eq
  cases b with
  | eq =>
    refine .ok fun t actual => ?_
    show Evaluation.done (.ok (actual.matchesThrough t.caseSensitive v)) = .done (.ok (actual.matchesThrough _ w))
    rw [matchesThrough_reordered h hv]
  | ne =>
    refine .ok fun t actual => ?_
    show Evaluation.done (.ok !actual.matchesThrough t.caseSensitive v) = .done (.ok !actual.matchesThrough _ w)
    rw [matchesThrough_reordered h hv]
  | contains =>
    refine .ok fun t actual => ?_
    show Evaluation.done (.ok (containsValue t actual v)) = .done (.ok (containsValue t actual w))
    rw [containsValue_reordered t h hv]
  | isIn =>
    refine (Operand.Site.array_reordered h hv).mono ?_
    rintro _ _ ⟨xs, ys, rfl, rfl, hxy, hxs⟩ t actual
    show Evaluation.done (.ok (isInItems t actual xs)) = .done (.ok (isInItems t actual ys))
    rw [isInItems_reordered t hxy hxs]
  | notIn =>
    refine (Operand.Site.array_reordered h hv).mono ?_
    rintro _ _ ⟨xs, ys, rfl, rfl, hxy, hxs⟩ t actual
    show Evaluation.done (.ok !isInItems t actual xs) = .done (.ok !isInItems t actual ys)
    rw [isInItems_reordered t hxy hxs]
  | all =>
    refine (Operand.Site.array_reordered h hv).mono ?_
    rintro _ _ ⟨xs, ys, rfl, rfl, hxy, hxs⟩ t actual
    show Evaluation.done (.ok (hasAll t actual xs)) = .done (.ok (hasAll t actual ys))
    rw [hasAll_reordered t hxy hxs]
  | near => exact hsame (Operand.Site.vicinity_follows h.resembles hv)
  | geoBox => exact hsame (Operand.Site.box_follows h.resembles hv)
  | geoPolygon => exact hsame (Operand.Site.polygon_follows h.resembles hv)
  | recent | upcoming => exact hsame (Operand.Site.relativeTime_follows h.resembles hv)
  | dayOfWeek => exact hsame (Operand.Site.dayOfWeek_follows h.resembles)
  | timeOfDay => exact hsame (Operand.Site.timeOfDay_follows h.resembles hv)
  | age => exact hsame (Operand.Site.ageRange_follows h.resembles hv)
  | _ =>
    -- the other operators take atoms alone
    cases h with
    | refl => exact .of_eq (.refl _) rfl
    | _ => exact .error _ _

end Builtin

end Winnow
