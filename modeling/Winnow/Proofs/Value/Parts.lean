import Winnow.Proofs.Lists
import Winnow.Proofs.Value.Induction
/-! # What occurs in a value

A value occurs in itself, and what occurs in one of its parts occurs in it. `Throughout P` says that `P`
holds of all that occurs; it is unfolded one level at a time by `throughout_iff`. Changing every moment
that occurs leaves a value as it is when it leaves every such moment. -/

namespace Winnow.Value

/-- Is the value the other one, or does it occur in one of its parts? -/
inductive OccursIn (w : Value) : Value → Prop
  | here : OccursIn w w
  | within {u v : Value} (hu : u ∈ v.parts) (h : OccursIn w u) : OccursIn w v

theorem occursIn_iff {w v : Value} : w.OccursIn v ↔ w = v ∨ ∃ u ∈ v.parts, w.OccursIn u := by
  constructor
  · rintro (_ | ⟨hu, h⟩)
    · exact .inl rfl
    · exact .inr ⟨_, hu, h⟩
  · rintro (rfl | ⟨u, hu, h⟩)
    · exact .here
    · exact .within hu h

/-- Has all that occurs in the value the property? -/
def Throughout (P : Value → Prop) (v : Value) : Prop := ∀ w, w.OccursIn v → P w

theorem throughout_iff {P : Value → Prop} {v : Value} :
    Throughout P v ↔ P v ∧ ∀ u ∈ v.parts, Throughout P u := by
  constructor
  · intro h
    exact ⟨h v .here, fun u hu w hw => h w (.within hu hw)⟩
  · rintro ⟨hv, hparts⟩ w hw
    rcases occursIn_iff.1 hw with rfl | ⟨u, hu, hw⟩
    · exact hv
    · exact hparts u hu w hw

theorem Throughout.here {P : Value → Prop} {v : Value} (h : Throughout P v) : P v := h v .here

theorem Throughout.part {P : Value → Prop} {v u : Value} (h : Throughout P v) (hu : u ∈ v.parts) :
    Throughout P u := (throughout_iff.1 h).2 u hu

variable {P : Value → Prop}

theorem throughout_atom {v : Value} (hv : v.parts = []) : Throughout P v ↔ P v := by
  simp [throughout_iff (v := v), hv]

theorem throughout_list {items : List Value} :
    Throughout P (list items) ↔ P (list items) ∧ ∀ x ∈ items, Throughout P x := throughout_iff

theorem throughout_tuple {items : List Value} :
    Throughout P (tuple items) ↔ P (tuple items) ∧ ∀ x ∈ items, Throughout P x := throughout_iff

theorem forall_mem_parts_object {entries : List (Value × Value)} :
    (∀ u ∈ (object entries).parts, P u) ↔ ∀ e ∈ entries, P e.1 ∧ P e.2 := by
  constructor
  · intro h e he
    exact ⟨h _ (mem_parts_object he).1, h _ (mem_parts_object he).2⟩
  · intro h u hu
    obtain ⟨e, he, hu⟩ := List.mem_flatMap.1 hu
    simp only [List.mem_cons, List.not_mem_nil, or_false] at hu
    rcases hu with rfl | rfl
    · exact (h e he).1
    · exact (h e he).2

theorem throughout_object {entries : List (Value × Value)} : Throughout P (object entries) ↔
    P (object entries) ∧ ∀ e ∈ entries, Throughout P e.1 ∧ Throughout P e.2 := by
  rw [throughout_iff, forall_mem_parts_object]

/-- Has every whole number that occurs in the value the property? -/
def EveryInt (p : Int → Prop) (v : Value) : Prop := ∀ i, (int i).OccursIn v → p i

theorem everyInt_int {p : Int → Prop} {i : Int} : EveryInt p (int i) ↔ p i := by
  constructor
  · intro h
    exact h i .here
  · intro h j hj
    rcases occursIn_iff.1 hj with hj | ⟨u, hu, -⟩
    · rwa [int.inj hj]
    · cases hu

theorem everyInt_iff_parts {p : Int → Prop} {v : Value} (h : ∀ i, v ≠ int i) :
    EveryInt p v ↔ ∀ u ∈ v.parts, EveryInt p u := by
  constructor
  · intro hv u hu i hi
    exact hv i (.within hu hi)
  · intro hparts i hi
    rcases occursIn_iff.1 hi with rfl | ⟨u, hu, hi⟩
    · exact absurd rfl (h i)
    · exact hparts u hu i hi

/-- Are at most so many values around one another? -/
def NestsWithin : Nat → Value → Prop
  | 0, _ => False
  | room + 1, v => ∀ u ∈ v.parts, NestsWithin room u

/-- Is no key equal to one behind it? -/
def KeysApart (entries : List (Value × Value)) : Prop := entries.Pairwise fun a b => a.1.equal b.1 = false

theorem keysApart_iff {entries : List (Value × Value)} :
    KeysApart entries ↔ (entries.map Prod.fst).Pairwise fun a b => a.equal b = false := by
  rw [List.pairwise_map, KeysApart]

/-- A key unlike all others is put at the end. -/
theorem insert_new {entries : List (Value × Value)} {k v : Value}
    (hk : ∀ e ∈ entries, e.1.equal k = false) : insert entries k v = entries ++ [(k, v)] := by
  induction entries with
  | nil => rfl
  | cons e es ih =>
    rcases e with ⟨k', v'⟩
    have hne : k'.equal k = false := hk _ (List.mem_cons_self ..)
    simp [insert, hne, ih fun e he => hk e (List.mem_cons_of_mem _ he)]

theorem KeysApart.insert {done es : List (Value × Value)} {k v : Value} (h : KeysApart (done ++ (k, v) :: es))
    (w : Value) : Value.insert done k w = done ++ [(k, w)] := by
  rw [KeysApart, List.pairwise_append] at h
  exact insert_new fun e he => h.2.2 e he (k, v) (List.mem_cons_self ..)

/-- The value with every moment that occurs changed. -/
def mapMoments (g : Moment → Moment) : Value → Value
  | moment m => moment (g m)
  | list items => list (mapItems items)
  | tuple items => tuple (mapItems items)
  | set items => set (mapItems items)
  | object entries => object (mapEntries entries)
  | record fields => record (mapFields fields)
  | v => v
where
  mapItems : List Value → List Value
  | [] => []
  | x :: xs => mapMoments g x :: mapItems xs
  mapEntries : List (Value × Value) → List (Value × Value)
  | [] => []
  | (k, v) :: es => (mapMoments g k, mapMoments g v) :: mapEntries es
  mapFields : List (String × Value) → List (String × Value)
  | [] => []
  | (k, v) :: fs => (k, mapMoments g v) :: mapFields fs

variable {g : Moment → Moment}

theorem mapItems_eq (items : List Value) : mapMoments.mapItems g items = items.map (mapMoments g) := by
  induction items with
  | nil => rfl
  | cons x xs ih => rw [mapMoments.mapItems, ih, List.map_cons]

theorem mapEntries_eq (entries : List (Value × Value)) : mapMoments.mapEntries g entries =
    entries.map fun e => (e.1.mapMoments g, e.2.mapMoments g) := by
  induction entries with
  | nil => rfl
  | cons e es ih =>
    rcases e with ⟨k, v⟩
    rw [mapMoments.mapEntries, ih, List.map_cons]

theorem mapFields_eq (fields : List (String × Value)) : mapMoments.mapFields g fields =
    fields.map fun f => (f.1, f.2.mapMoments g) := by
  induction fields with
  | nil => rfl
  | cons f fs ih =>
    rcases f with ⟨k, v⟩
    rw [mapMoments.mapFields, ih, List.map_cons]

theorem mapMoments_list (items : List Value) : (list items).mapMoments g = list (items.map (mapMoments g)) := by
  rw [← mapItems_eq]
  rfl

theorem mapMoments_object (entries : List (Value × Value)) : (object entries).mapMoments g =
    object (entries.map fun e => (e.1.mapMoments g, e.2.mapMoments g)) := by
  rw [← mapEntries_eq]
  rfl

/-- Nothing changes when no part does, and no moment that the value is itself. -/
theorem mapMoments_eq_self_iff_parts {v : Value} : v.mapMoments g = v ↔
    (∀ m, v = moment m → g m = m) ∧ ∀ u ∈ v.parts, u.mapMoments g = u := by
  cases v with
  | moment m => simp [mapMoments, parts]
  | list items => simp [mapMoments_list, map_eq_self_iff, parts]
  | tuple items | set items => simp [mapMoments, mapItems_eq, map_eq_self_iff, parts]
  | object entries =>
    simp only [mapMoments_object, object.injEq, map_eq_self_iff, Prod.ext_iff, reduceCtorEq, false_implies,
      implies_true, true_and, forall_mem_parts_object]
  | record fields =>
    simp only [mapMoments, mapFields_eq, record.injEq, map_eq_self_iff, Prod.ext_iff, reduceCtorEq,
      false_implies, implies_true, true_and, parts, List.mem_map]
    constructor
    · rintro h u ⟨f, hf, rfl⟩
      exact h f hf
    · intro h f hf
      exact h _ ⟨f, hf, rfl⟩
  | _ => simp [mapMoments, parts]

theorem mapMoments_eq_self_iff {v : Value} : v.mapMoments g = v ↔ ∀ m, (moment m).OccursIn v → g m = m := by
  induction v using Value.induction with
  | step v ih =>
    rw [mapMoments_eq_self_iff_parts]
    constructor
    · rintro ⟨hself, hparts⟩ m hm
      rcases occursIn_iff.1 hm with rfl | ⟨u, hu, hm⟩
      · exact hself m rfl
      · exact (ih u hu).1 (hparts u hu) m hm
    · intro h
      refine ⟨fun m hm => h m (hm ▸ .here), fun u hu => (ih u hu).2 fun m hm => h m (.within hu hm)⟩

theorem mapMoments_id (v : Value) : v.mapMoments id = v := mapMoments_eq_self_iff.2 fun _ _ => rfl

end Winnow.Value
