import Winnow.Proofs.Memo.Key
import Winnow.Proofs.Transport.Positions
/-! # Keys hold the callables that they name

A form names a callable by where it is in memory, and that place can be given to another one when the first is gone.
So a key holds the callables that it names: it finds them by a walk of its own over the expression, which comes to the
same places as the form. Then no two keys that are alive at once take different callables for the same. -/

namespace Winnow

open Outcome

variable {c d : Callable} {path : List Value.Place} {v : Value} {g : Callable → Callable} {env : Environment}
  {key key' : ResultKey}

namespace Value

/-! ## The walk over an expression -/

theorem ofItems_eq (items : List Value) : callables.ofItems items = items.flatMap callables := by
  induction items with
  | nil => rfl
  | cons x xs ih => rw [callables.ofItems, ih, List.flatMap_cons]

theorem ofEntries_eq (entries : List (Value × Value)) :
    callables.ofEntries entries = entries.flatMap fun e => e.2.callables := by
  induction entries with
  | nil => rfl
  | cons e es ih => rw [callables.ofEntries, ih, List.flatMap_cons]

theorem callables_of_items? {items : List Value} (h : v.items? = some items) :
    v.callables = items.flatMap callables := by
  rw [← ofItems_eq]
  cases v with
  | list | tuple =>
    obtain rfl := Option.some.inj h
    rfl
  | _ => cases h

theorem callables_object (entries : List (Value × Value)) :
    (object entries).callables = entries.flatMap fun e => e.2.callables :=
  ofEntries_eq entries

/-- The walk comes to a callable exactly where it stands. -/
theorem mem_callables : c ∈ v.callables ↔ ∃ path, v.StandsAt c path := by
  constructor
  · intro h
    induction v using Value.induction with
    | step v ih =>
      cases v with
      | callable d =>
        obtain rfl := List.mem_singleton.1 h
        exact ⟨[], .here⟩
      | list items | tuple items =>
        rw [callables_of_items? rfl] at h
        obtain ⟨x, hx, hc⟩ := List.mem_flatMap.1 h
        obtain ⟨path, hpath⟩ := ih x hx hc
        obtain ⟨index, hindex⟩ := List.mem_iff_getElem?.1 hx
        exact ⟨_, .item rfl hindex hpath⟩
      | set items =>
        rw [callables, ofItems_eq] at h
        obtain ⟨x, hx, hc⟩ := List.mem_flatMap.1 h
        obtain ⟨path, hpath⟩ := ih x hx hc
        exact ⟨_, .member hx hpath⟩
      | object entries =>
        rw [callables_object] at h
        obtain ⟨e, he, hc⟩ := List.mem_flatMap.1 h
        obtain ⟨path, hpath⟩ := ih e.2 (mem_parts_object he).2 hc
        exact ⟨_, .entry he hpath⟩
      | _ => cases h
  · rintro ⟨path, h⟩
    induction h with
    | here => exact List.mem_singleton_self _
    | item hitems hx h ih =>
      rw [callables_of_items? hitems]
      exact List.mem_flatMap.2 ⟨_, List.mem_of_getElem? hx, ih⟩
    | member hx h ih =>
      rw [callables, ofItems_eq]
      exact List.mem_flatMap.2 ⟨_, hx, ih⟩
    | entry he h ih =>
      rw [callables_object]
      exact List.mem_flatMap.2 ⟨_, he, ih⟩

/-! ## Callables in place of others -/

/-- The value with another callable in the place of every one. -/
def mapCallables (g : Callable → Callable) : Value → Value
  | callable c => callable (g c)
  | list items => list (mapItems items)
  | tuple items => tuple (mapItems items)
  | set items => set (mapItems items)
  | object entries => object (mapEntries entries)
  | v => v
where
  mapItems : List Value → List Value
  | [] => []
  | x :: xs => mapCallables g x :: mapItems xs
  mapEntries : List (Value × Value) → List (Value × Value)
  | [] => []
  | (k, v) :: es => (k, mapCallables g v) :: mapEntries es

theorem mapCallables_items (items : List Value) : mapCallables.mapItems g items = items.map (mapCallables g) := by
  induction items with
  | nil => rfl
  | cons x xs ih => rw [mapCallables.mapItems, ih, List.map_cons]

theorem mapCallables_entries (entries : List (Value × Value)) :
    mapCallables.mapEntries g entries = entries.map fun e => (e.1, e.2.mapCallables g) := by
  induction entries with
  | nil => rfl
  | cons e es ih => rw [mapCallables.mapEntries, ih, List.map_cons]

theorem items?_mapCallables : (v.mapCallables g).items? = v.items?.map (·.map (mapCallables g)) := by
  cases v with
  | list items | tuple items => exact congrArg some (mapCallables_items items)
  | _ => rfl

/-- Where a callable stands, the one in its place does. -/
theorem standsAt_mapCallables : (v.mapCallables g).StandsAt c path ↔ ∃ d, g d = c ∧ v.StandsAt d path := by
  constructor
  · intro h
    generalize hw : v.mapCallables g = w at h
    induction h generalizing v with
    | here =>
      cases v with
      | callable d => exact ⟨d, callable.inj hw, .here⟩
      | _ => cases hw
    | item hitems hx h ih =>
      rw [← hw, items?_mapCallables, Option.map_eq_some_iff] at hitems
      obtain ⟨items, hitems, rfl⟩ := hitems
      rw [List.getElem?_map, Option.map_eq_some_iff] at hx
      obtain ⟨x, hx, hxw⟩ := hx
      obtain ⟨d, hd, hstands⟩ := ih hxw
      exact ⟨d, hd, .item hitems hx hstands⟩
    | member hx h ih =>
      cases v with
      | set items =>
        rw [← set.inj hw, mapCallables_items] at hx
        obtain ⟨x, hx, hxw⟩ := List.mem_map.1 hx
        obtain ⟨d, hd, hstands⟩ := ih hxw
        exact ⟨d, hd, .member hx hstands⟩
      | _ => cases hw
    | entry he h ih =>
      cases v with
      | object entries =>
        rw [← object.inj hw, mapCallables_entries] at he
        obtain ⟨e, hmem, rfl⟩ := List.mem_map.1 he
        obtain ⟨d, hd, hstands⟩ := ih rfl
        have hentry := StandsAt.entry hmem hstands
        exact ⟨d, hd, hentry⟩
      | _ => cases hw
  · rintro ⟨d, rfl, h⟩
    induction h with
    | here => exact .here
    | item hitems hx h ih =>
      refine .item (by rw [items?_mapCallables, hitems]; rfl) ?_ ih
      rw [List.getElem?_map, hx]
      rfl
    | member hx h ih =>
      refine .member ?_ ih
      rw [mapCallables_items]
      exact List.mem_map_of_mem hx
    | @entry e entries path he h ih =>
      have hmem : (e.1, e.2.mapCallables g) ∈ mapCallables.mapEntries g entries := by
        rw [mapCallables_entries]
        exact List.mem_map.2 ⟨e, he, rfl⟩
      have hentry := StandsAt.entry hmem ih
      exact hentry

end Value

/-! ## What keys are made of -/

namespace ResultKey

/-- What a key is made of. -/
structure Source where
  expression : Value
  options : Options
  version : Nat

namespace Source

variable {s s' : Source}

/-- The value whose form a key is the digest of. -/
def value (s : Source) : Value := .list [s.expression, s.options.affecting, .int s.version]

/-- The source as it is shown, with another callable in the place of every one. -/
def mapCallables (g : Callable → Callable) (s : Source) : Source :=
  { s with
    expression := s.expression.mapCallables g
    options := { s.options with customComparator := s.options.customComparator.map g } }

/-- The callables of the expression, and the comparator. -/
def callables (s : Source) : List Callable := s.expression.callables ++ s.options.customComparator.toList

theorem callables_affecting (o : Options) : o.affecting.callables = o.customComparator.toList := by
  have horder : (o.orderBy.map (·.toValue)).flatMap Value.callables = [] := by
    rw [List.flatMap_map]
    exact List.flatMap_eq_nil_iff.2 fun k _ => rfl
  have hlimit : ((o.limit.map fun (n : Nat) => Value.int n).getD .null).callables = [] := by
    cases o.limit <;> rfl
  have hcomparator : ((o.customComparator.map Value.callable).getD .null).callables = o.customComparator.toList := by
    cases o.customComparator <;> rfl
  simp [Options.affecting, Value.ofPairs, Value.callables_object, Value.callables, Value.ofItems_eq, horder, hlimit,
    hcomparator]

theorem callables_value : s.value.callables = s.callables := by
  simp [value, callables, Value.callables, Value.ofItems_eq, callables_affecting]

theorem make_eq_ok : make env s.expression s.options s.version = .ok key ↔
    ∃ message, Canonical.bytes s.value = .ok message ∧ key = ⟨env.digest message, s.callables⟩ := by
  simp only [make, bind_eq_ok, pure_eq, Except.ok.injEq, value, callables, eq_comm (a := key)]

/-- The key that is made of the source when its callables are shown as others. It holds the callables themselves. -/
def keyShown (env : Environment) (shown : Callable → Callable) (s : Source) : Outcome ResultKey :=
  (make env (s.mapCallables shown).expression (s.mapCallables shown).options s.version).map fun key =>
    { key with callables := s.callables }

theorem keyShown_eq_ok {shown : Callable → Callable} : s.keyShown env shown = .ok key ↔
    ∃ message, Canonical.bytes (s.mapCallables shown).value = .ok message ∧
      key = ⟨env.digest message, s.callables⟩ := by
  rw [keyShown, map_eq_ok]
  simp only [show s.version = (s.mapCallables shown).version from rfl, make_eq_ok]
  constructor
  · rintro ⟨_, ⟨message, hmessage, rfl⟩, rfl⟩
    exact ⟨message, hmessage, rfl⟩
  · rintro ⟨message, hmessage, rfl⟩
    exact ⟨_, ⟨message, hmessage, rfl⟩, rfl⟩

end Source
end ResultKey

/-! ## Memory over time -/

/-- Where callables are shown to stand at each moment, and which are held. One that is held stays in its place, and
two that are held at once stand apart; the place of one that is no longer held can be given to another. -/
structure Memory where
  shown : Nat → Callable → Callable
  held : Nat → Callable → Prop
  stays : ∀ c first last, first ≤ last → (∀ t, first ≤ t → t ≤ last → held t c) → shown first c = shown last c
  apart : ∀ c d t, held t c → held t d → shown t c = shown t d → c = d

namespace Memory

variable {m : Memory} {s s' : ResultKey.Source} {made made' now : Nat}

/-- Is the key alive, made of the source at one moment, and holding its callables until another? -/
structure Live (m : Memory) (env : Environment) (s : ResultKey.Source) (made now : Nat) (key : ResultKey) : Prop where
  made_eq : s.keyShown env (m.shown made) = .ok key
  made_le : made ≤ now
  held : ∀ c ∈ key.callables, ∀ t, made ≤ t → t ≤ now → m.held t c

namespace Live

theorem mem_callables (h : m.Live env s made now key) : c ∈ key.callables ↔ c ∈ s.callables := by
  obtain ⟨message, -, rfl⟩ := ResultKey.Source.keyShown_eq_ok.1 h.made_eq
  rfl

theorem shown_now (h : m.Live env s made now key) (hc : c ∈ s.callables) : m.shown made c = m.shown now c :=
  m.stays c made now h.made_le (h.held c (h.mem_callables.2 hc))

theorem held_now (h : m.Live env s made now key) (hc : c ∈ s.callables) : m.held now c :=
  h.held c (h.mem_callables.2 hc) now h.made_le (Nat.le_refl now)

/-- Callables that are shown in one place by keys that are alive at once are the same. -/
theorem eq_of_shown (h : m.Live env s made now key) (h' : m.Live env s' made' now key') (hc : c ∈ s.callables)
    (hd : d ∈ s'.callables) (hshown : m.shown made c = m.shown made' d) : c = d := by
  rw [h.shown_now hc, h'.shown_now hd] at hshown
  exact m.apart c d now (h.held_now hc) (h'.held_now hd) hshown

end Live

/-! ## Equal keys -/

/-- Does the digest tell the messages apart of which the keys of two sources are made? -/
def DigestsApart (m : Memory) (env : Environment) (s s' : ResultKey.Source) (made made' : Nat) : Prop :=
  ∀ a b, Canonical.bytes (s.mapCallables (m.shown made)).value = .ok a →
    Canonical.bytes (s'.mapCallables (m.shown made')).value = .ok b → env.digest a = env.digest b → a = b

theorem Live.forms_eq (h : m.Live env s made now key) (h' : m.Live env s' made' now key')
    (happart : m.DigestsApart env s s' made made') (hkeys : (key == key') = true) :
    Canonical.ofValue (s.mapCallables (m.shown made)).value =
      Canonical.ofValue (s'.mapCallables (m.shown made')).value := by
  obtain ⟨a, ha, rfl⟩ := ResultKey.Source.keyShown_eq_ok.1 h.made_eq
  obtain ⟨b, hb, rfl⟩ := ResultKey.Source.keyShown_eq_ok.1 h'.made_eq
  obtain rfl := happart a b ha hb (ResultKey.beq_iff.1 hkeys).1
  exact Canonical.ofValue_eq_of_bytes ha hb

theorem Live.standsAt (h : m.Live env s made now key) (h' : m.Live env s' made' now key')
    (hforms : Canonical.ofValue (s.expression.mapCallables (m.shown made)) =
      Canonical.ofValue (s'.expression.mapCallables (m.shown made')))
    (hc : s.expression.StandsAt c path) : s'.expression.StandsAt c path := by
  have hshown : (s.expression.mapCallables (m.shown made)).StandsAt (m.shown made c) path :=
    Value.standsAt_mapCallables.2 ⟨c, rfl, hc⟩
  -- the other form names the same at this place, and what is shown there stands for some callable
  rw [← Canonical.taggedAt_ofValue, hforms, Canonical.taggedAt_ofValue, Value.standsAt_mapCallables] at hshown
  obtain ⟨d, hd, hstands⟩ := hshown
  have hmem : c ∈ s.callables := List.mem_append_left _ (Value.mem_callables.2 ⟨path, hc⟩)
  have hmem' : d ∈ s'.callables := List.mem_append_left _ (Value.mem_callables.2 ⟨path, hstands⟩)
  rwa [h.eq_of_shown h' hmem hmem' hd.symm]

theorem Live.comparator_eq (h : m.Live env s made now key) (h' : m.Live env s' made' now key')
    (hshown : s.options.customComparator.map (m.shown made) = s'.options.customComparator.map (m.shown made')) :
    s.options.customComparator = s'.options.customComparator := by
  rcases hc : s.options.customComparator with _ | c <;> rcases hd : s'.options.customComparator with _ | d <;>
    rw [hc, hd] at hshown
  · cases hshown
  · cases hshown
  · have hmem : c ∈ s.callables := List.mem_append_right _ (by simp [hc])
    have hmem' : d ∈ s'.callables := List.mem_append_right _ (by simp [hd])
    rw [h.eq_of_shown h' hmem hmem' (Option.some.inj hshown)]

end Memory

/-- A memory with one place: `adult` is there at first, and `over_26` from the next moment on. -/
def onePlace : Memory where
  shown _ _ := .function "place"
  held t c := c = if t = 0 then .function "adult" else .function "over_26"
  stays _ _ _ _ _ := rfl
  apart _ _ _ hc hd _ := hc.trans hd.symm

/-- Is somebody over 26, asked in a list and in a tuple. -/
def inList : ResultKey.Source := ⟨.list [.callable (.function "over_26")], {}, 31⟩

def inTuple : ResultKey.Source := ⟨.tuple [.callable (.function "over_26")], {}, 31⟩

theorem exists_message_inList (hg : (g (.function "over_26")).name.utf8ByteSize < 2 ^ 32) :
    ∃ message, Canonical.bytes (inList.mapCallables g).value = .ok message := by
  have hexpression : Canonical.Fits (inList.mapCallables g).expression := by
    refine Canonical.fitsIn_list (Nat.lt_of_sub_eq_succ rfl) fun x hx => ?_
    obtain rfl := List.mem_singleton.1 hx
    exact Canonical.fitsIn_callable hg
  have hoptions : Options.Encodable (inList.mapCallables g).options := by
    constructor <;> simp [inList, ResultKey.Source.mapCallables]
  have hversion : (inList.mapCallables g).version < 2 ^ 64 := Nat.lt_of_sub_eq_succ rfl
  exact Canonical.bytes_triple.2 ⟨hexpression, hoptions.fits, Canonical.fitsIn_nat hversion⟩

end Winnow
