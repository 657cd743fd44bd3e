import Winnow.Proofs.Number.Exact
import Winnow.Proofs.Value.Parts
/-! # Equality of keys

Two keys that equal one value equal each other. So in a mapping whose keys are told apart at most one entry
answers to a value, and the order of the entries does not decide which. -/

namespace Winnow

/-! ## Moments -/

namespace Moment

/-- On which kind of clock a moment is read, and what it says there. -/
def clockTime (m : Moment) : Bool × Int :=
  match m.offset with
  | none => (false, m.reading)
  | some _ => (true, m.instant)

theorem sameTime_iff {a b : Moment} : a.sameTime b = true ↔ a.clockTime = b.clockTime := by
  rw [sameTime, beq_iff_eq]
  unfold compare clockTime
  rcases a.offset with _ | x <;> rcases b.offset with _ | y
  · rw [Option.some.injEq, compare_eq_iff_eq, Prod.mk.injEq, eq_self, true_and]
  · simp only [reduceCtorEq, Prod.mk.injEq, false_and]
  · simp only [reduceCtorEq, Prod.mk.injEq, false_and]
  · rw [Option.some.injEq, compare_eq_iff_eq, Prod.mk.injEq, eq_self, true_and]

end Moment

namespace Value

/-! ## Values without parts -/

/-- Are values without parts equal: the same, moments of one time, or numbers that denote the same? -/
inductive SameAtom : Value → Value → Prop
  | refl (v : Value) : SameAtom v v
  | moments {m m' : Moment} (h : m.clockTime = m'.clockTime) : SameAtom (moment m) (moment m')
  | numbers {a b : Value} {x y : Exact} (ha : a.number? = some x) (hb : b.number? = some y)
      (h : x.compare y = some .eq) : SameAtom a b

theorem sameAtom_of_equalAtoms {a b : Value} (h : equalAtoms a b = true) : SameAtom a b := by
  revert h
  fun_cases equalAtoms a b <;> intro h
  case case1 | case2 => exact .refl _
  case case3 | case4 | case7 => exact eq_of_beq h ▸ .refl _
  case case5 | case8 | case9 => exact of_decide_eq_true h ▸ .refl _
  case case6 m m' => exact .moments (Moment.sameTime_iff.1 h)
  case case10 | case11 =>
    rw [Bool.and_eq_true, beq_iff_eq, beq_iff_eq] at h
    exact h.1 ▸ h.2 ▸ .refl _
  case case12 hx hy _ _ _ _ _ _ _ _ _ _ _ => exact .numbers hx hy (eq_of_beq h)
  case case13 => cases h

theorem equalAtoms_of_numbers {a b : Value} {x y : Exact} (ha : a.number? = some x) (hb : b.number? = some y)
    (h : x.compare y = some .eq) : equalAtoms a b = true := by
  have hxy : (x.compare y == some .eq) = true := beq_iff_eq.2 h
  cases a with
  | bool _ | int _ | float _ =>
    cases b with
    | bool _ | int _ | float _ =>
      obtain rfl := Option.some.inj ha
      obtain rfl := Option.some.inj hb
      exact hxy
    | _ => cases hb
  | _ => cases ha

theorem equalAtoms_of_equalAtoms {k a b : Value} (ha : equalAtoms k a = true) (hb : equalAtoms k b = true) :
    equalAtoms a b = true := by
  cases sameAtom_of_equalAtoms ha with
  | refl => exact hb
  | moments h =>
    cases sameAtom_of_equalAtoms hb with
    | refl => exact Moment.sameTime_iff.2 h.symm
    | moments h' => exact Moment.sameTime_iff.2 (h.symm.trans h')
    | numbers hk => cases hk
  | numbers hk ha h =>
    cases sameAtom_of_equalAtoms hb with
    | refl => exact equalAtoms_of_numbers ha hk (Exact.compare_eq_symm h)
    | moments => cases hk
    | numbers hk' hb h' =>
      obtain rfl := Option.some.inj (hk.symm.trans hk')
      exact equalAtoms_of_numbers ha hb (Exact.compare_eq_of_eq h h')

/-! ## Values with parts -/

theorem equalLists_iff {xs ys : List Value} :
    equal.equalLists xs ys = true ↔ List.Forall₂ (fun x y => x.equal y = true) xs ys := by
  induction xs generalizing ys with
  | nil => cases ys <;> simp [equal.equalLists]
  | cons x xs ih => cases ys <;> simp [equal.equalLists, ih]

theorem entriesIn_iff {es fs : List (Value × Value)} : equal.entriesIn es fs = true ↔
    ∀ e ∈ es, ∃ f, fs.find? (fun f => e.1.equal f.1) = some f ∧ e.2.equal f.2 = true := by
  induction es with
  | nil => simp [equal.entriesIn]
  | cons e es ih =>
    rcases e with ⟨k, v⟩
    rw [equal.entriesIn, Bool.and_eq_true, ih, List.forall_mem_cons]
    refine and_congr_left fun _ => ?_
    cases fs.find? (fun f => k.equal f.1) <;> simp

theorem fieldsIn_iff {es fs : List (String × Value)} : equal.fieldsIn es fs = true ↔
    ∀ e ∈ es, ∃ f, fs.find? (fun f => e.1 == f.1) = some f ∧ e.2.equal f.2 = true := by
  induction es with
  | nil => simp [equal.fieldsIn]
  | cons e es ih =>
    rcases e with ⟨k, v⟩
    rw [equal.fieldsIn, Bool.and_eq_true, ih, List.forall_mem_cons]
    refine and_congr_left fun _ => ?_
    cases fs.find? (fun f => k == f.1) <;> simp

/-- Only lists equal a list, item by item. -/
theorem equal_list_iff {a : Value} {ys : List Value} :
    a.equal (list ys) = true ↔ ∃ xs, a = list xs ∧ List.Forall₂ (fun x y => x.equal y = true) xs ys := by
  constructor
  · intro h
    cases a with
    | list xs => exact ⟨xs, rfl, equalLists_iff.1 h⟩
    | _ => cases h
  · rintro ⟨xs, rfl, h⟩
    exact equalLists_iff.2 h

theorem equal_tuple_iff {a : Value} {ys : List Value} :
    a.equal (tuple ys) = true ↔ ∃ xs, a = tuple xs ∧ List.Forall₂ (fun x y => x.equal y = true) xs ys := by
  constructor
  · intro h
    cases a with
    | tuple xs => exact ⟨xs, rfl, equalLists_iff.1 h⟩
    | _ => cases h
  · rintro ⟨xs, rfl, h⟩
    exact equalLists_iff.2 h

/-- Only mappings equal a mapping: with as many entries, each of which has one there for its key. -/
theorem equal_object_iff {a : Value} {fs : List (Value × Value)} :
    a.equal (object fs) = true ↔ ∃ es, a = object es ∧ es.length = fs.length ∧
      ∀ e ∈ es, ∃ f, fs.find? (fun f => e.1.equal f.1) = some f ∧ e.2.equal f.2 = true := by
  have hobject (es : List (Value × Value)) :
      (object es).equal (object fs) = (es.length == fs.length && equal.entriesIn es fs) := rfl
  constructor
  · intro h
    cases a with
    | object es =>
      rw [hobject, Bool.and_eq_true, beq_iff_eq, entriesIn_iff] at h
      exact ⟨es, rfl, h⟩
    | _ => cases h
  · rintro ⟨es, rfl, h⟩
    rwa [hobject, Bool.and_eq_true, beq_iff_eq, entriesIn_iff]

theorem equal_record_iff {a : Value} {fs : List (String × Value)} :
    a.equal (record fs) = true ↔ ∃ es, a = record es ∧ es.length = fs.length ∧
      ∀ e ∈ es, ∃ f, fs.find? (fun f => e.1 == f.1) = some f ∧ e.2.equal f.2 = true := by
  have hrecord (es : List (String × Value)) :
      (record es).equal (record fs) = (es.length == fs.length && equal.fieldsIn es fs) := rfl
  constructor
  · intro h
    cases a with
    | record es =>
      rw [hrecord, Bool.and_eq_true, beq_iff_eq, fieldsIn_iff] at h
      exact ⟨es, rfl, h⟩
    | _ => cases h
  · rintro ⟨es, rfl, h⟩
    rwa [hrecord, Bool.and_eq_true, beq_iff_eq, fieldsIn_iff]

/-! ## Keys -/

/-- A key that is no tuple has no parts to compare. -/
theorem equal_eq_equalAtoms {f : Value} (hf : f.isHashable = true) (ht : ∀ items, f ≠ tuple items) (k : Value) :
    k.equal f = equalAtoms k f := by
  fun_cases equal k f
  case case2 => exact absurd rfl (ht _)
  case case6 => rfl
  all_goals cases hf

theorem allHashable_iff {items : List Value} :
    isHashable.allHashable items = true ↔ ∀ x ∈ items, x.isHashable = true := by
  induction items with
  | nil => simp [isHashable.allHashable]
  | cons x xs ih => simp [isHashable.allHashable, ih]

/-- Keys that equal one value equal each other. -/
theorem equal_of_equal {k f g : Value} (hf : f.isHashable = true) (hg : g.isHashable = true)
    (h : k.equal f = true) (h' : k.equal g = true) : f.equal g = true := by
  induction f using Value.induction generalizing k g with
  | step f ih =>
    by_cases htuple : ∃ fs, f = tuple fs
    · obtain ⟨fs, rfl⟩ := htuple
      obtain ⟨ks, rfl, hfs⟩ := equal_tuple_iff.1 h
      have hgtuple : ∃ gs, g = tuple gs := by
        cases g with
        | tuple gs => exact ⟨gs, rfl⟩
        | _ => cases h'
      obtain ⟨gs, rfl⟩ := hgtuple
      obtain ⟨_, hks, hgs⟩ := equal_tuple_iff.1 h'
      obtain rfl := tuple.inj hks
      refine equal_tuple_iff.2 ⟨fs, rfl, forall₂_of_forall₂ hfs hgs fun x y hy z hz hxy hxz => ?_⟩
      exact ih y hy (allHashable_iff.1 hf y hy) (allHashable_iff.1 hg z hz) hxy hxz
    · have hf' := fun items hi => htuple ⟨items, hi⟩
      rw [equal_eq_equalAtoms hf hf'] at h
      have hg' : ∀ items, g ≠ tuple items := by
        rintro items rfl
        obtain ⟨ks, rfl, -⟩ := equal_tuple_iff.1 h'
        cases sameAtom_of_equalAtoms h with
        | refl => exact htuple ⟨ks, rfl⟩
        | numbers hk => cases hk
      rw [equal_eq_equalAtoms hg hg'] at h' ⊢
      exact equalAtoms_of_equalAtoms h h'

/-- A mapping as programs have it: its keys are hashable, and none equals one behind it. -/
def IsMapping (entries : List (Value × Value)) : Prop :=
  (∀ e ∈ entries, e.1.isHashable = true) ∧ KeysApart entries

namespace IsMapping

variable {es fs : List (Value × Value)}

/-- At most one entry answers to a value. -/
theorem unique (h : IsMapping es) (k : Value) :
    es.Pairwise fun a b => ¬(k.equal a.1 = true ∧ k.equal b.1 = true) := by
  refine h.2.imp_of_mem fun {a b} ha hb hab hk => ?_
  rw [equal_of_equal (h.1 a ha) (h.1 b hb) hk.1 hk.2] at hab
  cases hab

end IsMapping

end Value

end Winnow
