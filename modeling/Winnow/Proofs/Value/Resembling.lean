import Winnow.Proofs.Value.Equality
/-! # Values that read alike

`Resembles v w`: a reader that takes lists and tuples for the same and looks entries up by name sees the same
in both values, at any depth. Sets may stand as lists in the second one, and moments, which no such reader
looks into, may differ. -/

namespace Winnow.Value

/-- Is the value no mapping, or one as programs have them? -/
def MapsWell : Value → Prop
  | object entries => IsMapping entries
  | _ => True

/-- Are all mappings that occur in the value as programs have them? -/
abbrev WellMapped (v : Value) : Prop := v.Throughout MapsWell

theorem wellMapped_atom {v : Value} (hv : v.parts = []) (hmap : MapsWell v) : v.WellMapped :=
  (throughout_atom hv).2 hmap

/-- A mapping with texts for keys, none of them twice. -/
theorem wellMapped_ofPairs {pairs : List (String × Value)} (hkeys : (pairs.map (·.1)).Nodup)
    (hpairs : ∀ p ∈ pairs, p.2.WellMapped) : (ofPairs pairs).WellMapped := by
  refine throughout_object.2 ⟨⟨List.forall_mem_map.2 fun _ _ => rfl, ?_⟩, List.forall_mem_map.2 fun p hp => ?_⟩
  · rw [KeysApart, List.pairwise_map]
    exact (List.pairwise_map.1 hkeys).imp fun hne => beq_false_of_ne hne
  · exact ⟨wellMapped_atom rfl trivial, hpairs p hp⟩

/-- The same but for the kind of sequences, the order of the entries of mappings and moments. -/
inductive Resembles : Value → Value → Prop
  | refl (v : Value) : Resembles v v
  | moment (m m' : Moment) : Resembles (moment m) (moment m')
  | list {xs ys : List Value} (h : List.Forall₂ Resembles xs ys) : Resembles (list xs) (list ys)
  | tuple {xs ys : List Value} (h : List.Forall₂ Resembles xs ys) : Resembles (tuple xs) (tuple ys)
  | tupleAsList {xs ys : List Value} (h : List.Forall₂ Resembles xs ys) : Resembles (tuple xs) (list ys)
  | setAsList {xs ys : List Value} (h : List.Forall₂ Resembles xs ys) : Resembles (set xs) (list ys)
  | object {es es' fs : List (Value × Value)} (hperm : es.Perm es') (hkeys : es'.map (·.1) = fs.map (·.1))
      (h : List.Forall₂ Resembles (es'.map (·.2)) (fs.map (·.2))) : Resembles (object es) (object fs)
  | record {es fs : List (String × Value)} (hnames : es.map (·.1) = fs.map (·.1))
      (h : List.Forall₂ Resembles (es.map (·.2)) (fs.map (·.2))) : Resembles (record es) (record fs)

/-- Entries with equal keys and related values. -/
theorem entries_rel {κ : Type} {R : Value → Value → Prop} {es fs : List (κ × Value)}
    (hkeys : es.map (·.1) = fs.map (·.1)) (h : List.Forall₂ R (es.map (·.2)) (fs.map (·.2))) :
    List.Forall₂ (fun e f => e.1 = f.1 ∧ R e.2 f.2) es fs := by
  rw [List.forall₂_map_left_iff, List.forall₂_map_right_iff] at h
  exact (forall₂_of_map_eq hkeys fun _ _ _ _ hkey => hkey).mp (fun _ _ hkey hvalue => ⟨hkey, hvalue⟩) h

/-! ## Looking at entries -/

theorem get?_eq_find? (es : List (Value × Value)) (name : String) :
    get? es name = (es.find? fun e => (text name).equal e.1).map (·.2) := by
  induction es with
  | nil => rfl
  | cons e es ih =>
    rcases e with ⟨k, v⟩
    rw [List.find?_cons]
    cases k with
    | text k =>
      have hkey : (text name).equal (text k) = (name == k) := rfl
      rw [get?, hkey, ih]
      by_cases h : k = name
      · rw [if_pos h, h, beq_self_eq_true]
        rfl
      · rw [if_neg h, beq_false_of_ne (Ne.symm h)]
    | _ => exact ih

variable {es fs : List (Value × Value)} {v w : Value}

theorem mem_parts_of_get? {name : String} (h : get? es name = some v) : v ∈ (object es).parts := by
  rw [get?_eq_find?] at h
  obtain ⟨e, he, rfl⟩ := Option.map_eq_some_iff.1 h
  exact (mem_parts_object (List.mem_of_find?_eq_some he)).2

namespace Resembles

/-- Mappings that read alike have related values for a name, or none. -/
theorem get? (h : Resembles (.object es) (.object fs)) (hes : (Value.object es).WellMapped) (name : String) :
    Option.Rel (fun v w => Resembles v w ∧ v.WellMapped) (Value.get? es name) (Value.get? fs name) := by
  have hrel : Option.Rel Resembles (Value.get? es name) (Value.get? fs name) := by
    rw [get?_eq_find?, get?_eq_find?]
    cases h with
    | refl =>
      cases es.find? fun e => (text name).equal e.1 with
      | none => exact .none
      | some e => exact .some (.refl _)
    | object hperm hkeys h =>
      rw [find?_eq_of_perm hperm (hes.here.unique _)]
      have hfound := find?_rel (entries_rel hkeys h)
        (p := fun e => (text name).equal e.1) (q := fun f => (text name).equal f.1) fun e f hef => by rw [hef.1]
      generalize List.find? _ _ = x at hfound ⊢
      generalize List.find? _ _ = y at hfound ⊢
      cases hfound with
      | some h => exact .some h.2
      | none => exact .none
  have hmem (v : Value) (h : Value.get? es name = some v) : v.WellMapped := hes.part (mem_parts_of_get? h)
  generalize Value.get? es name = x at hrel hmem ⊢
  generalize Value.get? fs name = y at hrel ⊢
  cases hrel with
  | some h => exact .some ⟨h, hmem _ rfl⟩
  | none => exact .none

/-- The value for a name, or another one. -/
theorem getD (h : Resembles (.object es) (.object fs)) (hes : (Value.object es).WellMapped) (name : String)
    (d : Value) : Resembles ((Value.get? es name).getD d) ((Value.get? fs name).getD d) := by
  have hfound := h.get? hes name
  generalize Value.get? es name = x at hfound ⊢
  generalize Value.get? fs name = y at hfound ⊢
  cases hfound with
  | some h => exact h.1
  | none => exact .refl _

theorem lookup {es fs : List (String × Value)} (h : List.Forall₂ (fun e f => e.1 = f.1 ∧ Resembles e.2 f.2) es fs)
    (name : String) : Resembles ((es.lookup name).getD null) ((fs.lookup name).getD null) := by
  induction h with
  | nil => exact .refl _
  | @cons e f _ _ hef _ ih =>
    obtain ⟨hkey, hvalue⟩ := hef
    rw [List.lookup_cons, List.lookup_cons, ← hkey]
    split
    · exact hvalue
    · exact ih

/-- Items are read alike. -/
theorem items? (h : Resembles v w) (hv : v.WellMapped) {xs : List Value} (hxs : v.items? = some xs) :
    ∃ ys, w.items? = some ys ∧ List.Forall₂ Resembles xs ys ∧ ∀ x ∈ xs, x.WellMapped := by
  have hparts : ∀ u ∈ v.parts, u.WellMapped := fun u hu => hv.part hu
  cases h with
  | refl =>
    refine ⟨xs, hxs, List.forall₂_same.2 fun x _ => .refl x, ?_⟩
    cases v with
    | list items | tuple items =>
      cases hxs
      exact hparts
    | _ => cases hxs
  | list h | tuple h | tupleAsList h =>
    cases hxs
    exact ⟨_, rfl, h, hparts⟩
  | _ => cases hxs

end Resembles

end Winnow.Value
