import Winnow.Proofs.Time.IsoText
import Winnow.Proofs.Value.Resembling
/-! # Values after a journey

What becomes of a value that is sent or written and read again: tuples and sets arrive as lists, and moments as
their texts are read. A value that holds neither a tuple nor a set, and whose offsets are zero or at least a
second, arrives as it is; every other one still resembles what arrives. -/

namespace Winnow.Value

/-! ## Lists in the place of tuples and sets -/

/-- The value with lists in the place of tuples and sets, at any depth. -/
def listed : Value → Value
  | list items | tuple items | set items => list (listedItems items)
  | object entries => object (listedEntries entries)
  | record fields => record (listedFields fields)
  | v => v
where
  listedItems : List Value → List Value
  | [] => []
  | x :: xs => listed x :: listedItems xs
  listedEntries : List (Value × Value) → List (Value × Value)
  | [] => []
  | (k, v) :: es => (listed k, listed v) :: listedEntries es
  listedFields : List (String × Value) → List (String × Value)
  | [] => []
  | (k, v) :: fs => (k, listed v) :: listedFields fs

theorem listedItems_eq (items : List Value) : listed.listedItems items = items.map listed := by
  induction items with
  | nil => rfl
  | cons x xs ih => rw [listed.listedItems, ih, List.map_cons]

theorem listedEntries_eq (entries : List (Value × Value)) :
    listed.listedEntries entries = entries.map fun e => (e.1.listed, e.2.listed) := by
  induction entries with
  | nil => rfl
  | cons e es ih =>
    rcases e with ⟨k, v⟩
    rw [listed.listedEntries, ih, List.map_cons]

theorem listedFields_eq (fields : List (String × Value)) :
    listed.listedFields fields = fields.map fun f => (f.1, f.2.listed) := by
  induction fields with
  | nil => rfl
  | cons f fs ih =>
    rcases f with ⟨k, v⟩
    rw [listed.listedFields, ih, List.map_cons]

theorem listed_list (items : List Value) : (list items).listed = list (items.map listed) := by
  rw [listed, listedItems_eq]

theorem listed_tuple (items : List Value) : (tuple items).listed = list (items.map listed) := by
  rw [listed, listedItems_eq]

theorem listed_set (items : List Value) : (set items).listed = list (items.map listed) := by
  rw [listed, listedItems_eq]

theorem listed_object (entries : List (Value × Value)) :
    (object entries).listed = object (entries.map fun e => (e.1.listed, e.2.listed)) := by
  rw [listed, listedEntries_eq]

theorem listed_record (fields : List (String × Value)) :
    (record fields).listed = record (fields.map fun f => (f.1, f.2.listed)) := by
  rw [listed, listedFields_eq]

/-! ## What arrives -/

/-- What is received when the value is sent. -/
def arrived (v : Value) : Value := v.listed.mapMoments Moment.readBack

variable {v : Value}

theorem arrived_moment (m : Moment) : (moment m).arrived = moment m.readBack := rfl

theorem arrived_list (items : List Value) : (list items).arrived = list (items.map arrived) := by
  rw [arrived, listed_list, mapMoments_list, List.map_map]
  rfl

theorem arrived_tuple (items : List Value) : (tuple items).arrived = list (items.map arrived) := by
  rw [arrived, listed_tuple, mapMoments_list, List.map_map]
  rfl

theorem arrived_set (items : List Value) : (set items).arrived = list (items.map arrived) := by
  rw [arrived, listed_set, mapMoments_list, List.map_map]
  rfl

theorem arrived_object (entries : List (Value × Value)) :
    (object entries).arrived = object (entries.map fun e => (e.1.arrived, e.2.arrived)) := by
  rw [arrived, listed_object, mapMoments_object, List.map_map]
  rfl

theorem arrived_record (fields : List (String × Value)) :
    (record fields).arrived = record (fields.map fun f => (f.1, f.2.arrived)) := by
  rw [arrived, listed_record, mapMoments, mapFields_eq, List.map_map]
  rfl

/-- Does the value arrive as it is? -/
def Stays (v : Value) : Prop := v.arrived = v

/-- Is the value itself, its parts aside, of a kind that arrives as it is? -/
def StaysHere : Value → Prop
  | tuple _ | set _ => False
  | moment m => m.KeepsOffset
  | _ => True

/-- A value arrives as it is when no tuple and no set occurs in it, and no offset below a second. -/
theorem stays_iff : v.Stays ↔ v.Throughout StaysHere := by
  induction v using Value.induction with
  | step v ih =>
    rw [throughout_iff]
    cases v with
    | list items =>
      rw [Stays, arrived_list, list.injEq, map_eq_self_iff]
      simp only [StaysHere, true_and]
      exact forall₂_congr ih
    | tuple items => simp [Stays, arrived_tuple, StaysHere]
    | set items => simp [Stays, arrived_set, StaysHere]
    | moment m => simp [Stays, arrived_moment, StaysHere, Moment.readBack_eq_self_iff, parts]
    | object entries =>
      rw [Stays, arrived_object, object.injEq, map_eq_self_iff, forall_mem_parts_object]
      simp only [StaysHere, true_and, Prod.ext_iff]
      exact forall₂_congr fun e he =>
        and_congr (ih _ (mem_parts_object he).1) (ih _ (mem_parts_object he).2)
    | record fields =>
      rw [Stays, arrived_record, record.injEq, map_eq_self_iff]
      simp only [StaysHere, true_and, Prod.ext_iff, parts, List.forall_mem_map]
      exact forall₂_congr fun f hf => ih _ (List.mem_map.2 ⟨f, hf, rfl⟩)
    | _ => exact iff_of_true rfl ⟨trivial, List.forall_mem_nil _⟩

/-! ## Keys -/

/-- Is the value no mapping, or one as programs have them of which the keys arrive as they are? -/
def Keyed : Value → Prop
  | object entries => IsMapping entries ∧ ∀ e ∈ entries, e.1.Stays
  | _ => True

theorem wellMapped_of_keyed (hv : v.Throughout Keyed) : v.WellMapped := by
  intro w hw
  have hkeyed := hv w hw
  cases w with
  | object entries => exact hkeyed.1
  | _ => trivial

/-- A key that arrives as it is holds no tuple. -/
theorem listed_key {k : Value} (hhash : k.isHashable = true) (hk : k.Stays) : k.listed = k := by
  cases k with
  | tuple items =>
    rw [Stays, arrived_tuple] at hk
    cases hk
  | list | set | object | record => cases hhash
  | _ => rfl

/-- What arrives resembles what was sent. -/
theorem resembles_arrived (hv : v.Throughout Keyed) : v.Resembles v.arrived := by
  induction v using Value.induction with
  | step v ih =>
    have hitems (items : List Value) (h : ∀ x ∈ items, x ∈ v.parts) :
        List.Forall₂ Resembles items (items.map arrived) :=
      List.forall₂_map_right_iff.2 (List.forall₂_same.2 fun x hx => ih x (h x hx) (hv.part (h x hx)))
    cases v with
    | list items =>
      rw [arrived_list]
      exact .list (hitems items fun x hx => hx)
    | tuple items =>
      rw [arrived_tuple]
      exact .tupleAsList (hitems items fun x hx => hx)
    | set items =>
      rw [arrived_set]
      exact .setAsList (hitems items fun x hx => hx)
    | moment m => exact .moment m _
    | object entries =>
      rw [arrived_object]
      refine .object (.refl _) ?_ ?_
      · rw [List.map_map]
        exact List.map_congr_left fun e he => (hv.here.2 e he).symm
      · have hvalues := hitems (entries.map (·.2)) fun x hx => by
          obtain ⟨e, he, rfl⟩ := List.mem_map.1 hx
          exact (mem_parts_object he).2
        rwa [List.map_map] at hvalues ⊢
    | record fields =>
      rw [arrived_record]
      refine .record ?_ ?_
      · rw [List.map_map]
        rfl
      · have hvalues := hitems (fields.map Prod.snd) fun x hx => hx
        rwa [List.map_map] at hvalues ⊢
    | _ => exact .refl _

end Winnow.Value
