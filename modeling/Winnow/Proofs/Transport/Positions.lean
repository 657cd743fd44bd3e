import Winnow.Proofs.Transport.Sameness
/-! # Where callables stand

A canonical form names the callables of a value at the places where they stand in it: among the items of lists, tuples
and sets, and under the keys of mappings, which are known by their texts. Keys and the attributes of objects are text
to a form, whatever they hold. -/

namespace Winnow

/-- A step into a value: to the item at an index, to a member of a set, or to what is under a key of this text. -/
inductive Value.Place
  | item (index : Nat)
  | member
  | entry (key : String)

/-- Does the callable stand at the end of the path? -/
inductive Value.StandsAt (c : Callable) : List Value.Place → Value → Prop
  | here : StandsAt c [] (.callable c)
  | item {v x : Value} {items : List Value} {index : Nat} {path : List Value.Place} (hitems : v.items? = some items)
      (hx : items[index]? = some x) (h : StandsAt c path x) : StandsAt c (.item index :: path) v
  | member {x : Value} {items : List Value} {path : List Value.Place} (hx : x ∈ items) (h : StandsAt c path x) :
      StandsAt c (.member :: path) (.set items)
  | entry {e : Value × Value} {entries : List (Value × Value)} {path : List Value.Place} (he : e ∈ entries)
      (h : StandsAt c path e.2) : StandsAt c (.entry e.1.display :: path) (.object entries)

namespace Canonical

/-- Does the form name the callable at the end of the path? -/
inductive TaggedAt (c : Callable) : List Value.Place → Value → Prop
  | here : TaggedAt c [] (ofCallable c)
  | item {form : Value} {forms : List Value} {index : Nat} {path : List Value.Place} (hform : forms[index]? = some form)
      (h : TaggedAt c path form) : TaggedAt c (.item index :: path) (tagged listTag [.list forms])
  | member {form : Value} {forms : List Value} {path : List Value.Place} (hform : form ∈ forms)
      (h : TaggedAt c path form) : TaggedAt c (.member :: path) (tagged setTag [.list forms])
  | entry {key : String} {form : Value} {pairs : List Value} {path : List Value.Place}
      (hpair : .list [.text key, form] ∈ pairs) (h : TaggedAt c path form) :
      TaggedAt c (.entry key :: path) (tagged mapTag [.list pairs])

variable {c : Callable} {path : List Value.Place} {v form : Value} {forms items : List Value}

theorem ofValue_set : ofValue (.set items) = tagged setTag [.list (orderItems (items.map ofValue))] := by
  rw [← ofItems_eq]
  rfl

/-- The pairs in the form of a mapping are its entries, by the texts of their keys. -/
theorem mem_pairs {entries : List (Value × Value)} {key : String} :
    .list [.text key, form] ∈ (orderKeys (formEntries entries)).map (fun (k, v) => Value.list [.text k, v]) ↔
      ∃ e ∈ entries, e.1.display = key ∧ ofValue e.2 = form := by
  simp [formEntries, (orderKeys_perm _).mem_iff]

/-! ## Forms that can hold callables -/

theorem ofCallable_inj {d : Callable} (h : ofCallable c = ofCallable d) : c = d := by
  cases c <;> cases d <;> simp_all [ofCallable, tagged, Callable.name]

theorem ofValue_int_ne_tagged {i : Int} {tag : String} {parts : List Value} (htag : intTag ≠ tag) :
    ofValue (.int i) ≠ tagged tag parts := by
  rw [ofValue_int]
  split
  · simp [tagged]
  · exact fun h => htag (tagged_inj.1 h).1

theorem eq_callable_of_ofValue (h : ofValue v = ofCallable c) : v = .callable c := by
  cases v with
  | callable d => exact congrArg Value.callable (ofCallable_inj h)
  | int i => exact absurd h (ofValue_int_ne_tagged (by decide))
  | _ => first | exact absurd (tagged_inj.1 h).1 (by decide) | cases h

/-- Binary data of a foreign type is a sequence of its code and its content. -/
theorem items?_of_ofValue (h : ofValue v = tagged listTag [.list forms]) :
    (∃ items, v.items? = some items ∧ forms = items.map ofValue) ∨ ∃ code data, forms = [.int code, .bytes data] := by
  cases v with
  | list items | tuple items =>
    rw [ofValue_of_items? rfl] at h
    simp only [tagged_inj, List.cons.injEq, Value.list.injEq, and_true, true_and] at h
    exact .inl ⟨items, rfl, h.symm⟩
  | extension code data =>
    have hforms := (tagged_inj.1 h).2
    simp only [List.cons.injEq, Value.list.injEq, and_true] at hforms
    exact .inr ⟨code, data, hforms.symm⟩
  | int i => exact absurd h (ofValue_int_ne_tagged (by decide))
  | _ => first | exact absurd (tagged_inj.1 h).1 (by decide) | cases h

theorem eq_set_of_ofValue (h : ofValue v = tagged setTag [.list forms]) :
    ∃ items, v = .set items ∧ forms = orderItems (items.map ofValue) := by
  cases v with
  | set items =>
    rw [ofValue_set] at h
    simp only [tagged_inj, List.cons.injEq, Value.list.injEq, and_true, true_and] at h
    exact ⟨items, rfl, h.symm⟩
  | int i => exact absurd h (ofValue_int_ne_tagged (by decide))
  | _ => first | exact absurd (tagged_inj.1 h).1 (by decide) | cases h

theorem eq_object_of_ofValue {pairs : List Value} (h : ofValue v = tagged mapTag [.list pairs]) :
    ∃ entries, v = .object entries ∧
      pairs = (orderKeys (formEntries entries)).map fun (k, v) => Value.list [.text k, v] := by
  cases v with
  | object entries =>
    rw [ofValue_object] at h
    simp only [tagged_inj, List.cons.injEq, Value.list.injEq, and_true, true_and] at h
    exact ⟨entries, rfl, h.symm⟩
  | int i => exact absurd h (ofValue_int_ne_tagged (by decide))
  | _ => first | exact absurd (tagged_inj.1 h).1 (by decide) | cases h

theorem TaggedAt.exists_eq_list (h : TaggedAt c path form) : ∃ parts, form = .list parts := by
  cases h <;> exact ⟨_, rfl⟩

/-- A form names the callables of the value where they stand, and no others. -/
theorem taggedAt_ofValue : TaggedAt c path (ofValue v) ↔ v.StandsAt c path := by
  constructor
  · intro h
    -- by the steps of the path: what names a callable below one has the form of a container
    generalize hform : ofValue v = form at h
    induction h generalizing v with
    | here =>
      rw [eq_callable_of_ofValue hform]
      exact .here
    | item hx h ih =>
      rcases items?_of_ofValue hform with ⟨items, hitems, rfl⟩ | ⟨code, data, rfl⟩
      · rw [List.getElem?_map, Option.map_eq_some_iff] at hx
        obtain ⟨x, hx, hxform⟩ := hx
        exact .item hitems hx (ih hxform)
      · -- a code and bytes name nothing
        obtain ⟨parts, rfl⟩ := h.exists_eq_list
        have hparts := List.mem_of_getElem? hx
        simp at hparts
    | member hx h ih =>
      obtain ⟨items, rfl, rfl⟩ := eq_set_of_ofValue hform
      obtain ⟨x, hx, hxform⟩ := List.mem_map.1 (mem_orderItems.1 hx)
      exact .member hx (ih hxform)
    | entry hpair h ih =>
      obtain ⟨entries, rfl, rfl⟩ := eq_object_of_ofValue hform
      obtain ⟨e, he, rfl, heform⟩ := mem_pairs.1 hpair
      exact .entry he (ih heform)
  · intro h
    induction h with
    | here => exact .here
    | item hitems hx h ih =>
      rw [ofValue_of_items? hitems]
      exact .item (by rw [List.getElem?_map, hx]; rfl) ih
    | member hx h ih =>
      rw [ofValue_set]
      exact .member (mem_orderItems.2 (List.mem_map_of_mem hx)) ih
    | entry he h ih =>
      rw [ofValue_object]
      exact .entry (mem_pairs.2 ⟨_, he, rfl, rfl⟩) ih

end Canonical
end Winnow
