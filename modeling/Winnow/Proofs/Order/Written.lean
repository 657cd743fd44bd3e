import Winnow.Proofs.Order.SortKeys
/-! # How orders are written

A sort key is written as a field, as a pair of field and direction or as a mapping; an order is none, one key, or a
list or tuple of keys. What is written is read, and nothing else is: a tuple that writes a key is no list of keys, a
list never writes one at the top. Keys that are read are read again, as such or written out. -/

namespace Winnow

open Outcome

theorem Direction.ofName?_eq_some {s : String} {d : Direction} :
    Direction.ofName? s = some d ↔ Text.lowercase s = d.name := by
  rw [ofName?]
  generalize Text.lowercase s = t
  constructor
  · intro h
    have hname := List.find?_some h
    exact (beq_iff_eq.1 hname).symm
  · rintro rfl
    cases d <;> decide +kernel

theorem Direction.lowercase_name (d : Direction) : Text.lowercase d.name = d.name := by
  cases d <;> decide +kernel

namespace SortKey

variable {v : Value} {k : SortKey} {keys : List SortKey} {items : List Value}

/-! ## One key -/

/-- Does the value write the sort key? Names of directions are taken in whatever case. -/
inductive Writes : Value → SortKey → Prop
  | field {s : String} (hs : s ≠ "") : Writes (.text s) ⟨s, .ascending⟩
  | pair {v : Value} {s t : String} {d : Direction} (hv : v.items? = some [.text s, .text t]) (hs : s ≠ "")
      (ht : Text.lowercase t = d.name) : Writes v ⟨s, d⟩
  | mapping {entries : List (Value × Value)} {s : String} {d : Direction}
      (hs : Value.get? entries "field" = some (.text s)) (hne : s ≠ "")
      (hd : Value.get? entries "direction" = none ∧ d = .ascending ∨
        ∃ t, Value.get? entries "direction" = some (.text t) ∧ Text.lowercase t = d.name) :
      Writes (.object entries) ⟨s, d⟩

theorem direction?_eq_some {d : Direction} :
    direction? v = some d ↔ ∃ t, v = .text t ∧ Text.lowercase t = d.name := by
  cases v with
  | text t => simp [direction?, Direction.ofName?_eq_some]
  | _ => exact iff_of_false nofun nofun

theorem readDirection_eq_ok {d : Direction} :
    readDirection v = .ok d ↔ ∃ t, v = .text t ∧ Text.lowercase t = d.name := by
  rw [← direction?_eq_some, readDirection]
  cases direction? v <;> simp [reject]

theorem pair?_eq_some {s : String} {d : Direction} :
    pair? v = some (s, d) ↔ ∃ t, v.items? = some [.text s, .text t] ∧ Text.lowercase t = d.name := by
  rw [pair?]
  split
  · next field direction hitems =>
    rw [hitems, Option.map_eq_some_iff]
    simp only [direction?_eq_some, Prod.mk.injEq, Option.some.injEq, List.cons.injEq, Value.text.injEq, and_true]
    constructor
    · rintro ⟨_, ⟨t, rfl, ht⟩, rfl, rfl⟩
      exact ⟨t, ⟨rfl, rfl⟩, ht⟩
    · rintro ⟨t, ⟨rfl, rfl⟩, ht⟩
      exact ⟨d, ⟨t, rfl, ht⟩, rfl, rfl⟩
  · next hother =>
    refine iff_of_false nofun ?_
    rintro ⟨t, hitems, -⟩
    exact hother _ _ hitems

/-- Without a direction the order is ascending. -/
theorem readDirection_getD_eq_ok {direction : Option Value} {d : Direction} :
    readDirection (direction.getD (.text Direction.ascending.name)) = .ok d ↔
      direction = none ∧ d = .ascending ∨ ∃ t, direction = some (.text t) ∧ Text.lowercase t = d.name := by
  cases direction with
  | none =>
    have hascending : direction? (.text Direction.ascending.name) = some .ascending := by decide +kernel
    simp [readDirection, hascending, eq_comm]
  | some direction => simp [readDirection_eq_ok]

theorem readField_map_eq_ok {s : String} {d : Direction} :
    (readField (.text s)).map (fun field => (⟨field, d⟩ : SortKey)) = .ok k ↔ s ≠ "" ∧ k = ⟨s, d⟩ := by
  simp only [map_eq_ok, readField_eq_ok, Value.text.injEq]
  constructor
  · rintro ⟨_, ⟨rfl, hs⟩, rfl⟩
    exact ⟨hs, rfl⟩
  · rintro ⟨hs, rfl⟩
    exact ⟨s, ⟨rfl, hs⟩, rfl⟩

theorem ofValue_object_eq_ok {entries : List (Value × Value)} :
    ofValue (.object entries) = .ok k ↔ Writes (.object entries) k := by
  rw [ofValue]
  rcases hfield : Value.get? entries "field" with _ | field
  · refine iff_of_false (by rintro ⟨⟩) fun h => ?_
    cases h with
    | pair hitems => cases hitems
    | mapping hs => cases hfield.symm.trans hs
  · simp only [bind_eq_ok, readField_eq_ok, readDirection_getD_eq_ok, pure_eq, Except.ok.injEq]
    constructor
    · rintro ⟨s, ⟨rfl, hne⟩, d, hd, rfl⟩
      exact .mapping hfield hne hd
    · intro h
      cases h with
      | pair hitems => cases hitems
      | mapping hs hne hd =>
        cases hfield.symm.trans hs
        exact ⟨_, ⟨rfl, hne⟩, _, hd, rfl⟩

/-- What is neither a text nor a mapping is read as a pair. -/
theorem ofValue_of_pair?_eq_some {s : String} {d : Direction} (hpair : pair? v = some (s, d)) :
    ofValue v = (readField (.text s)).map fun field => ⟨field, d⟩ := by
  obtain ⟨t, hitems, -⟩ := pair?_eq_some.1 hpair
  cases v with
  | list | tuple => simp only [ofValue, hpair]
  | _ => cases hitems

theorem ofValue_of_pair?_eq_none (htext : ∀ s, v ≠ .text s) (hobject : ∀ entries, v ≠ .object entries)
    (hpair : pair? v = none) : ofValue v = reject (.sortKey v) v := by
  cases v with
  | text s => exact absurd rfl (htext s)
  | object entries => exact absurd rfl (hobject entries)
  | _ => simp only [ofValue, hpair]

theorem ofValue_pair_eq_ok (htext : ∀ s, v ≠ .text s) (hobject : ∀ entries, v ≠ .object entries) :
    ofValue v = .ok k ↔ Writes v k := by
  rcases hpair : pair? v with _ | ⟨s, d⟩
  · rw [ofValue_of_pair?_eq_none htext hobject hpair]
    refine iff_of_false (by rintro ⟨⟩) fun h => ?_
    cases h with
    | field => exact absurd rfl (htext _)
    | mapping => exact absurd rfl (hobject _)
    | pair hitems _ ht => cases hpair.symm.trans (pair?_eq_some.2 ⟨_, hitems, ht⟩)
  · rw [ofValue_of_pair?_eq_some hpair, readField_map_eq_ok]
    constructor
    · rintro ⟨hs, rfl⟩
      obtain ⟨t, hitems, ht⟩ := pair?_eq_some.1 hpair
      exact .pair hitems hs ht
    · intro h
      cases h with
      | field => exact absurd rfl (htext _)
      | mapping => exact absurd rfl (hobject _)
      | pair hitems hs ht =>
        cases hpair.symm.trans (pair?_eq_some.2 ⟨_, hitems, ht⟩)
        exact ⟨hs, rfl⟩

/-- What writes a key is read as it, and nothing else. -/
theorem ofValue_eq_ok : ofValue v = .ok k ↔ Writes v k := by
  cases v with
  | text s =>
    rw [ofValue, readField_map_eq_ok]
    constructor
    · rintro ⟨hs, rfl⟩
      exact .field hs
    · intro h
      cases h with
      | field hs => exact ⟨hs, rfl⟩
      | pair hitems => cases hitems
  | object entries => exact ofValue_object_eq_ok
  | _ => exact ofValue_pair_eq_ok (by simp) (by simp)

/-! ## Orders -/

/-- Does the value write the order: none, one key, or several? -/
inductive WritesAll : Value → List SortKey → Prop
  | none : WritesAll .null []
  | one {v : Value} {k : SortKey} (hv : ∀ items, v ≠ .list items) (h : Writes v k) : WritesAll v [k]
  | several {v : Value} {items : List Value} {keys : List SortKey} (hv : v.items? = some items) (hne : items ≠ [])
      (hone : ∀ k, v = .tuple items → ¬Writes v k) (h : List.Forall₂ Writes items keys) : WritesAll v keys

theorem not_writes_of_pair?_eq_none (h : pair? v = none) {items : List Value} (hv : v.items? = some items) :
    ¬Writes v k := by
  intro hk
  cases hk with
  | field | mapping => cases hv
  | pair hitems _ ht => cases h.symm.trans (pair?_eq_some.2 ⟨_, hitems, ht⟩)

/-- A value is a list of keys when it is a list, or a tuple that writes no key. -/
theorem listed?_eq_some (h : listed? v = some items) :
    v.items? = some items ∧ ∀ k, v = .tuple items → ¬Writes v k := by
  cases v with
  | list =>
    obtain rfl := Option.some.inj h
    exact ⟨rfl, nofun⟩
  | tuple =>
    rw [listed?] at h
    split at h
    · cases h
    · next hpair =>
      obtain rfl := Option.some.inj h
      refine ⟨rfl, fun k _ => not_writes_of_pair?_eq_none ?_ rfl⟩
      simpa using hpair
  | _ => cases h

/-- A tuple that has the form of a pair is no list of keys: where it writes none, its field is empty. -/
theorem not_forall₂_writes_of_unlisted (h : listed? v = none) (hv : v.items? = some items)
    (hone : ∀ k, v = .tuple items → ¬Writes v k) : ¬List.Forall₂ Writes items keys := by
  cases v with
  | list => cases h
  | tuple =>
    obtain rfl := Option.some.inj hv
    rw [listed?] at h
    split at h
    · next hpair =>
      obtain ⟨⟨s, d⟩, hpair⟩ := Option.isSome_iff_exists.1 hpair
      obtain ⟨t, hitems, ht⟩ := pair?_eq_some.1 hpair
      obtain rfl := Option.some.inj hitems
      intro hkeys
      obtain ⟨k, _, hk, -⟩ := List.forall₂_cons_left_iff.1 hkeys
      cases hk with
      | field hs => exact hone _ rfl (.pair hitems hs ht)
      | pair hitems => cases hitems
    · cases h
  | _ => cases hv

theorem writesAll_null : WritesAll .null keys ↔ keys = [] := by
  constructor
  · intro h
    cases h with
    | none => rfl
    | one _ hk => cases hk with | pair hitems => cases hitems
    | several hv => cases hv
  · rintro rfl
    exact .none

theorem writesAll_of_listed (hlisted : listed? v = some items) :
    WritesAll v keys ↔ items ≠ [] ∧ List.Forall₂ Writes items keys := by
  obtain ⟨hitems, hone⟩ := listed?_eq_some hlisted
  constructor
  · intro h
    cases h with
    | none => cases hitems
    | one hv hk =>
      cases v with
      | list items => exact absurd rfl (hv items)
      | tuple =>
        obtain rfl := Option.some.inj hitems
        exact absurd hk (hone _ rfl)
      | _ => cases hitems
    | several hv hne _ h =>
      obtain rfl := Option.some.inj (hitems.symm.trans hv)
      exact ⟨hne, h⟩
  · rintro ⟨hne, h⟩
    exact .several hitems hne hone h

theorem writesAll_of_unlisted (hnull : v.isNull = false) (hlisted : listed? v = none) :
    WritesAll v keys ↔ ∃ k, Writes v k ∧ keys = [k] := by
  constructor
  · intro h
    cases h with
    | none => cases hnull
    | one _ hk => exact ⟨_, hk, rfl⟩
    | several hv _ hone h => exact absurd h (not_forall₂_writes_of_unlisted hlisted hv hone)
  · rintro ⟨k, hk, rfl⟩
    refine .one (fun items hv => ?_) hk
    subst hv
    cases hlisted

/-- What writes an order is read as it, and nothing else. -/
theorem readAll_eq_ok : readAll v = .ok keys ↔ WritesAll v keys := by
  rcases hnull : v.isNull with _ | _
  · rw [readAll, hnull, if_neg Bool.false_ne_true]
    rcases hlisted : listed? v with _ | items
    · simp only [writesAll_of_unlisted hnull hlisted, map_eq_ok, ofValue_eq_ok, eq_comm (a := keys)]
    · rw [writesAll_of_listed hlisted]
      cases items with
      | nil => exact iff_of_false (by rintro ⟨⟩) fun h => h.1 rfl
      | cons x xs => simp only [mapM_eq_ok, ofValue_eq_ok, ne_eq, reduceCtorEq, not_false_eq_true, true_and]
  · cases v with
    | null => rw [writesAll_null, readAll, Value.isNull, if_pos rfl, Except.ok.injEq, eq_comm]
    | _ => cases hnull

/-! ## Keys that are read again -/

variable {given : Given}

/-- A key that is read has a field, unless it was given as such. -/
theorem field_of_read (h : given.read = .ok keys) (hk : k ∈ keys) : k.field ≠ "" ∨ .key k ∈ given.items := by
  have hvalue {v : Value} (h : readAll v = .ok keys) : k.field ≠ "" := by
    rcases hnull : v.isNull with _ | _
    · exact (readAll_spec hnull h).2 k hk
    · rw [readAll, hnull, if_pos rfl] at h
      obtain rfl := Except.ok.inj h
      cases hk
  have hread {items : List Item} (h : items.mapM Item.read = .ok keys) : k.field ≠ "" ∨ .key k ∈ items := by
    obtain ⟨i, hi, hread⟩ := (Paired.of_forall₂ (mapM_eq_ok.1 h)).2 k hk
    cases i with
    | key k' =>
      obtain rfl := Except.ok.inj hread
      exact .inr hi
    | value v => exact .inl (field_of_ofValue hread)
  cases given with
  | item i =>
    cases i with
    | key k' =>
      obtain rfl := Except.ok.inj h
      exact .inr (List.mem_singleton.1 hk ▸ List.mem_singleton_self _)
    | value v => exact .inl (hvalue h)
  | list items | tuple items =>
    rw [Given.read] at h
    split at h
    · exact .inl (hvalue h)
    · exact hread h

/-- Keys as such are read as they are. -/
theorem read_tuple_keys (hne : keys ≠ []) : (Given.tuple (keys.map .key)).read = .ok keys := by
  have hvalues : Item.values? (keys.map .key) = none := by
    obtain ⟨k, ks, rfl⟩ := List.exists_cons_of_ne_nil hne
    rfl
  rw [Given.read, hvalues]
  show (keys.map Item.key).mapM Item.read = _
  rw [mapM_eq_ok, List.forall₂_map_left_iff, List.forall₂_same]
  exact fun _ _ => rfl

/-- A key is read from the pair of its field and direction. -/
theorem readAll_pair (hk : k.field ≠ "") : readAll (.tuple [.text k.field, .text k.direction.name]) = .ok [k] :=
  readAll_eq_ok.2 (.one nofun (.pair rfl hk k.direction.lowercase_name))

end SortKey

end Winnow
