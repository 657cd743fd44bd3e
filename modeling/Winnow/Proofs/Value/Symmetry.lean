import Winnow.Proofs.Number.Order
import Winnow.Proofs.Value.Equality
/-! # Equality and order from the other side

For values as programs have them, equality is symmetric, and a value is before another one exactly when
the other one is behind it. Sets with equal items and mappings with equal keys, which no program has, would
break both. -/

namespace Winnow

/-- Where each item of a list has a partner in another one of its length and no two have the same, all
there are partners. -/
theorem exists_partner {α β : Type} {R : α → β → Prop} {xs : List α} {ys : List β} (hlen : ys.length ≤ xs.length)
    (hpartner : ∀ x ∈ xs, ∃ y ∈ ys, R x y) (hone : xs.Pairwise fun a b => ∀ y ∈ ys, R a y → ¬R b y) :
    ∀ y ∈ ys, ∃ x ∈ xs, R x y := by
  induction xs generalizing ys with
  | nil =>
    intro y hy
    rw [List.length_eq_zero_iff.1 (Nat.le_zero.1 hlen)] at hy
    cases hy
  | cons x xs ih =>
    obtain ⟨hx, hxs⟩ := List.pairwise_cons.1 hone
    obtain ⟨z, hz, hxz⟩ := hpartner x (List.mem_cons_self ..)
    obtain ⟨before, after, rfl⟩ := List.append_of_mem hz
    have hsub (y : β) (hy : y ∈ before ++ after) : y ∈ before ++ z :: after := by
      simp only [List.mem_append, List.mem_cons] at hy ⊢
      tauto
    have hrest : ∀ x' ∈ xs, ∃ y ∈ before ++ after, R x' y := by
      intro x' hx'
      obtain ⟨y, hy, hxy⟩ := hpartner x' (List.mem_cons_of_mem _ hx')
      have hne : y ≠ z := by
        rintro rfl
        exact hx x' hx' y hz hxz hxy
      refine ⟨y, ?_, hxy⟩
      simp only [List.mem_append, List.mem_cons, hne, false_or] at hy ⊢
      exact hy
    have hfound := ih (by simp at hlen ⊢; omega) hrest (hxs.imp fun h y hy => h y (hsub y hy))
    intro y hy
    by_cases hyz : y = z
    · exact ⟨x, List.mem_cons_self .., hyz ▸ hxz⟩
    · obtain ⟨x', hx', hxy⟩ := hfound y (by simpa [hyz] using hy)
      exact ⟨x', List.mem_cons_of_mem _ hx', hxy⟩

theorem find?_eq_some_of_mem {α : Type} {p : α → Bool} {xs : List α} {x : α} (hx : x ∈ xs) (hp : p x = true)
    (hone : xs.Pairwise fun a b => ¬(p a = true ∧ p b = true)) : xs.find? p = some x := by
  induction xs with
  | nil => cases hx
  | cons y ys ih =>
    obtain ⟨hy, hys⟩ := List.pairwise_cons.1 hone
    rcases List.mem_cons.1 hx with rfl | hx
    · exact List.find?_cons_of_pos hp
    · rw [List.find?_cons_of_neg fun hpy => hy x hx ⟨hpy, hp⟩, ih hx hys]

namespace Value

/-- Are the items of a set, the keys of a mapping and the names of an object told apart? -/
def IsMadeWell : Value → Prop
  | set items => (∀ x ∈ items, x.isHashable = true) ∧ items.Pairwise fun x y => x.equal y = false
  | object entries => IsMapping entries
  | record fields => (fields.map Prod.fst).Nodup
  | _ => True

/-- Is the value, with all that occurs in it, as programs have them? -/
abbrev Proper (v : Value) : Prop := v.Throughout IsMadeWell

theorem equalAtoms_symm {a b : Value} (h : equalAtoms a b = true) : equalAtoms b a = true := by
  cases sameAtom_of_equalAtoms h with
  | refl => exact h
  | moments htime => exact Moment.sameTime_iff.2 htime.symm
  | numbers ha hb hxy => exact equalAtoms_of_numbers hb ha (Exact.compare_eq_symm hxy)

theorem allIn_iff {xs ys : List Value} :
    equal.allIn xs ys = true ↔ ∀ x ∈ xs, ∃ y ∈ ys, x.equal y = true := by
  induction xs with
  | nil => simp [equal.allIn]
  | cons x xs ih => simp [equal.allIn, ih]

/-- Only sets equal a set: with as many items, each of which equals one there. -/
theorem equal_set_iff {a : Value} {ys : List Value} :
    a.equal (set ys) = true ↔ ∃ xs, a = set xs ∧ xs.length = ys.length ∧
      ∀ x ∈ xs, ∃ y ∈ ys, x.equal y = true := by
  have hset (xs : List Value) : (set xs).equal (set ys) = (xs.length == ys.length && equal.allIn xs ys) := rfl
  constructor
  · intro h
    cases a with
    | set xs =>
      rw [hset, Bool.and_eq_true, beq_iff_eq, allIn_iff] at h
      exact ⟨xs, rfl, h⟩
    | _ => cases h
  · rintro ⟨xs, rfl, h⟩
    rwa [hset, Bool.and_eq_true, beq_iff_eq, allIn_iff]

theorem equal_set_symm {xs ys : List Value} (hhash : ∀ x ∈ xs, x.isHashable = true)
    (hapart : xs.Pairwise fun x x' => x.equal x' = false)
    (hback : ∀ x ∈ xs, ∀ y ∈ ys, x.equal y = true → y.equal x = true) (h : (set xs).equal (set ys) = true) :
    (set ys).equal (set xs) = true := by
  obtain ⟨_, heq, hlen, hxs⟩ := equal_set_iff.1 h
  obtain rfl := set.inj heq
  have hone : xs.Pairwise fun x x' => ∀ y ∈ ys, x.equal y = true → ¬x'.equal y = true := by
    refine hapart.imp_of_mem fun {x x'} hx hx' hne y hy hxy hxy' => ?_
    rw [equal_of_equal (hhash x hx) (hhash x' hx') (hback x hx y hy hxy) (hback x' hx' y hy hxy')] at hne
    cases hne
  refine equal_set_iff.2 ⟨ys, rfl, hlen.symm, fun y hy => ?_⟩
  obtain ⟨x, hx, hxy⟩ := exists_partner (Nat.le_of_eq hlen.symm) hxs hone y hy
  exact ⟨x, hx, hback x hx y hy hxy⟩

theorem equal_object_symm {es fs : List (Value × Value)} (hes : IsMapping es)
    (hkeys : ∀ e ∈ es, ∀ f ∈ fs, e.1.equal f.1 = true → f.1.equal e.1 = true)
    (hvalues : ∀ e ∈ es, ∀ f ∈ fs, e.2.equal f.2 = true → f.2.equal e.2 = true)
    (h : (object es).equal (object fs) = true) : (object fs).equal (object es) = true := by
  obtain ⟨_, heq, hlen, hall⟩ := equal_object_iff.1 h
  obtain rfl := object.inj heq
  have hpartner : ∀ e ∈ es, ∃ f ∈ fs, e.1.equal f.1 = true ∧ e.2.equal f.2 = true := by
    intro e he
    obtain ⟨f, hfind, hvalue⟩ := hall e he
    have hkey := List.find?_some hfind
    exact ⟨f, List.mem_of_find?_eq_some hfind, hkey, hvalue⟩
  have hone : es.Pairwise fun e e' => ∀ f ∈ fs, (e.1.equal f.1 = true ∧ e.2.equal f.2 = true) →
      ¬(e'.1.equal f.1 = true ∧ e'.2.equal f.2 = true) := by
    refine List.Pairwise.imp_of_mem (fun {e e'} he he' hne f hf hkey hkey' => ?_) hes.2
    rw [equal_of_equal (hes.1 e he) (hes.1 e' he') (hkeys e he f hf hkey.1)
      (hkeys e' he' f hf hkey'.1)] at hne
    cases hne
  refine equal_object_iff.2 ⟨fs, rfl, hlen.symm, fun f hf => ?_⟩
  obtain ⟨e, he, hkey, hvalue⟩ := exists_partner (Nat.le_of_eq hlen.symm) hpartner hone f hf
  exact ⟨e, find?_eq_some_of_mem he (hkeys e he f hf hkey) (hes.unique f.1), hvalues e he f hf hvalue⟩

theorem equal_record_symm {es fs : List (String × Value)} (hnames : es.Pairwise fun e e' => e.1 ≠ e'.1)
    (hvalues : ∀ e ∈ es, ∀ f ∈ fs, e.2.equal f.2 = true → f.2.equal e.2 = true)
    (h : (record es).equal (record fs) = true) : (record fs).equal (record es) = true := by
  obtain ⟨_, heq, hlen, hall⟩ := equal_record_iff.1 h
  obtain rfl := record.inj heq
  have hpartner : ∀ e ∈ es, ∃ f ∈ fs, e.1 = f.1 ∧ e.2.equal f.2 = true := by
    intro e he
    obtain ⟨f, hfind, hvalue⟩ := hall e he
    have hname := List.find?_some hfind
    exact ⟨f, List.mem_of_find?_eq_some hfind, eq_of_beq hname, hvalue⟩
  have hone : es.Pairwise fun e e' => ∀ f ∈ fs, (e.1 = f.1 ∧ e.2.equal f.2 = true) →
      ¬(e'.1 = f.1 ∧ e'.2.equal f.2 = true) :=
    hnames.imp fun hne f _ hf hf' => hne (hf.1.trans hf'.1.symm)
  refine equal_record_iff.2 ⟨fs, rfl, hlen.symm, fun f hf => ?_⟩
  obtain ⟨e, he, hname, hvalue⟩ := exists_partner (Nat.le_of_eq hlen.symm) hpartner hone f hf
  have hfind : es.find? (fun e => f.1 == e.1) = some e := by
    refine find?_eq_some_of_mem he (beq_iff_eq.2 hname.symm) (hnames.imp fun hne hboth => ?_)
    exact hne ((eq_of_beq hboth.1).symm.trans (eq_of_beq hboth.2))
  exact ⟨e, hfind, hvalues e he f hf hvalue⟩

theorem equal_symm {a b : Value} (ha : a.Proper) (hb : b.Proper) (h : a.equal b = true) : b.equal a = true := by
  induction b using Value.induction generalizing a with
  | step b ih =>
    have hback (x : Value) (hx : x ∈ a.parts) (y : Value) (hy : y ∈ b.parts) : x.equal y = true → y.equal x = true :=
      ih y hy (ha.part hx) (hb.part hy)
    cases b with
    | list ys =>
      obtain ⟨xs, rfl, hxs⟩ := equal_list_iff.1 h
      exact equal_list_iff.2 ⟨ys, rfl, (forall₂_imp_of_mem hxs hback).flip⟩
    | tuple ys =>
      obtain ⟨xs, rfl, hxs⟩ := equal_tuple_iff.1 h
      exact equal_tuple_iff.2 ⟨ys, rfl, (forall₂_imp_of_mem hxs hback).flip⟩
    | set ys =>
      obtain ⟨xs, rfl, -⟩ := equal_set_iff.1 h
      exact equal_set_symm ha.here.1 ha.here.2 hback h
    | object fs =>
      obtain ⟨es, rfl, -⟩ := equal_object_iff.1 h
      exact equal_object_symm ha.here
        (fun e he f hf => hback e.1 (mem_parts_object he).1 f.1 (mem_parts_object hf).1)
        (fun e he f hf => hback e.2 (mem_parts_object he).2 f.2 (mem_parts_object hf).2) h
    | record fs =>
      obtain ⟨es, rfl, -⟩ := equal_record_iff.1 h
      exact equal_record_symm (List.pairwise_map.1 ha.here)
        (fun e he f hf => hback e.2 (List.mem_map_of_mem he) f.2 (List.mem_map_of_mem hf)) h
    | _ =>
      rw [equal_eq_equalAtoms rfl (by simp)] at h
      exact equalAtoms_symm h

theorem equal_comm {a b : Value} (ha : a.Proper) (hb : b.Proper) : a.equal b = b.equal a := by
  rw [Bool.eq_iff_iff]
  exact ⟨equal_symm ha hb, equal_symm hb ha⟩

/-! ## Keys -/

theorem proper_of_isHashable {v : Value} (h : v.isHashable = true) : v.Proper := by
  induction v using Value.induction with
  | step v ih =>
    refine throughout_iff.2 ⟨?_, fun u hu => ih u hu ?_⟩
    · cases v with
      | set | object | record => cases h
      | _ => trivial
    · cases v with
      | list | set | object | record => cases h
      | tuple items => exact allHashable_iff.1 h u hu
      | _ => cases hu

/-- A value that can be a key. -/
def Key := {v : Value // v.isHashable = true}

namespace Key

instance : BEq Key := ⟨fun a b => a.1.equal b.1⟩

/-- Keys that equal one another count as one key; the number that is none equals no key. -/
instance : PartialEquivBEq Key where
  symm {a b} h := equal_symm (proper_of_isHashable a.2) (proper_of_isHashable b.2) h
  trans {a b c} hab hbc := by
    have hba := equal_symm (proper_of_isHashable a.2) (proper_of_isHashable b.2) hab
    exact equal_of_equal a.2 c.2 hba hbc

end Key

end Value

/-! ## Order -/

/-- The relation from the other side. -/
def Relation.converse : Relation → Relation
  | lt => gt
  | le => ge
  | gt => lt
  | ge => le

theorem Relation.holds_swap (r : Relation) (o : Ordering) : r.converse.holds o.swap = r.holds o := by
  cases r <;> cases o <;> rfl

theorem Date.compare_swap (d d' : Date) : d'.compare d = (d.compare d').swap := by
  rw [compare, compare, Ordering.swap_then, Ordering.swap_then, ← Std.OrientedOrd.eq_swap,
    ← Std.OrientedOrd.eq_swap, ← Std.OrientedOrd.eq_swap]

theorem Moment.compare_swap (m m' : Moment) : m'.compare m = (m.compare m').map Ordering.swap := by
  unfold compare
  rcases m.offset with _ | x <;> rcases m'.offset with _ | y
  · exact congrArg some Std.OrientedOrd.eq_swap
  · rfl
  · rfl
  · exact congrArg some Std.OrientedOrd.eq_swap

namespace Value

theorem relateAtoms_of_numbers {a b : Value} {x y : Exact} (r : Relation) (ha : a.number? = some x)
    (hb : b.number? = some y) : relateAtoms r a b = some ((x.compare y).any r.holds) := by
  cases a with
  | bool _ | int _ | float _ =>
    cases b with
    | bool _ | int _ | float _ =>
      obtain rfl := Option.some.inj ha
      obtain rfl := Option.some.inj hb
      rfl
    | _ => cases hb
  | _ => cases ha

theorem relateAtoms_converse (r : Relation) (a b : Value) : relateAtoms r.converse b a = relateAtoms r a b := by
  have hswap {α : Type} [Ord α] [Std.OrientedOrd α] (x y : α) :
      r.converse.holds (compare y x) = r.holds (compare x y) := by
    rw [Std.OrientedOrd.eq_swap, r.holds_swap]
  by_cases hnumbers : (∃ x, a.number? = some x) ∧ ∃ y, b.number? = some y
  · obtain ⟨⟨x, hx⟩, y, hy⟩ := hnumbers
    rw [relateAtoms_of_numbers _ hx hy, relateAtoms_of_numbers _ hy hx, Exact.compare_swap, Option.any_map]
    congr 2
    exact funext r.holds_swap
  cases a <;> cases b <;> try rfl
  case text.text s t => exact congrArg some (hswap s t)
  case bytes.bytes x y => exact congrArg some (hswap (x.map UInt8.toNat) (y.map UInt8.toNat))
  case date.date d d' => rw [relateAtoms, relateAtoms, Date.compare_swap, r.holds_swap]
  case moment.moment m m' =>
    rw [relateAtoms, relateAtoms, Moment.compare_swap, Option.map_map]
    exact congrArg (Option.map · _) (funext r.holds_swap)
  case span.span x y => exact congrArg some (hswap x y)
  case set.set xs ys => cases r <;> rfl
  all_goals exact absurd ⟨⟨_, rfl⟩, _, rfl⟩ hnumbers

/-- Two values are related as lists of their parts, or as values without parts. -/
theorem relate?_cases (a b : Value) :
    (∀ r, relate? r a b = relate?.relateLists r a.parts b.parts ∧
      relate? r b a = relate?.relateLists r b.parts a.parts) ∨
    ∀ r, relate? r a b = relateAtoms r a b ∧ relate? r b a = relateAtoms r b a := by
  cases a <;> cases b <;> first | exact .inr fun _ => ⟨rfl, rfl⟩ | exact .inl fun _ => ⟨rfl, rfl⟩

theorem relate?_converse (r : Relation) {a b : Value} (ha : a.Proper) (hb : b.Proper) :
    relate? r.converse b a = relate? r a b := by
  have hlists {xs ys : List Value} (hxs : ∀ x ∈ xs, x.Proper) (hys : ∀ y ∈ ys, y.Proper)
      (hitems : ∀ x ∈ xs, ∀ y ∈ ys, relate? r.converse y x = relate? r x y) :
      relate?.relateLists r.converse ys xs = relate?.relateLists r xs ys := by
    induction xs generalizing ys with
    | nil =>
      cases ys <;> cases r <;> rfl
    | cons x xs ih =>
      cases ys with
      | nil => cases r <;> rfl
      | cons y ys =>
        obtain ⟨hx, hxs⟩ := List.forall_mem_cons.1 hxs
        obtain ⟨hy, hys⟩ := List.forall_mem_cons.1 hys
        rw [relate?.relateLists, relate?.relateLists, equal_comm hy hx,
          hitems x (List.mem_cons_self ..) y (List.mem_cons_self ..), ih hxs hys]
        intro x' hx' y' hy'
        exact hitems x' (List.mem_cons_of_mem _ hx') y' (List.mem_cons_of_mem _ hy')
  induction a using Value.induction generalizing b with
  | step a ih =>
    have hitems (x : Value) (hx : x ∈ a.parts) (y : Value) (hy : y ∈ b.parts) :
        relate? r.converse y x = relate? r x y := ih x hx (ha.part hx) (hb.part hy)
    rcases relate?_cases a b with h | h
    · rw [(h _).1, (h _).2, hlists (fun _ => ha.part) (fun _ => hb.part) hitems]
    · rw [(h _).1, (h _).2, relateAtoms_converse]

/-- Are values under the relations of two values either not ordered at all, or not both before and behind
each other? -/
def Consistent (related : Relation → Option Bool) : Prop := (∀ r, related r = none) ∨
  ∃ before behind, related .lt = some before ∧ related .gt = some behind ∧ (before = true → behind = false)

theorem consistent_holds (o : Ordering) : Consistent fun r => some (r.holds o) := by
  cases o <;> exact .inr ⟨_, _, rfl, rfl, by decide⟩

theorem relateAtoms_consistent (a b : Value) : Consistent fun r => relateAtoms r a b := by
  by_cases hnumbers : (∃ x, a.number? = some x) ∧ ∃ y, b.number? = some y
  · obtain ⟨⟨x, hx⟩, y, hy⟩ := hnumbers
    simp only [relateAtoms_of_numbers _ hx hy]
    cases x.compare y with
    | none => exact .inr ⟨_, _, rfl, rfl, by decide⟩
    | some o => exact consistent_holds o
  cases a <;> cases b <;> try exact .inl fun _ => rfl
  case text.text | bytes.bytes | date.date | span.span => exact consistent_holds _
  case moment.moment m m' =>
    simp only [relateAtoms]
    cases m.compare m' with
    | none => exact .inl fun _ => rfl
    | some o => exact consistent_holds o
  case set.set xs ys =>
    refine .inr ⟨_, _, rfl, rfl, fun h => ?_⟩
    rw [Bool.and_eq_true, Bool.not_eq_true'] at h
    simp only [h.2, Bool.false_and]
  all_goals exact absurd ⟨⟨_, rfl⟩, _, rfl⟩ hnumbers

theorem relate?_consistent (a b : Value) : Consistent fun r => relate? r a b := by
  have hlists {xs ys : List Value} (hitems : ∀ x ∈ xs, ∀ y, Consistent fun r => relate? r x y) :
      Consistent fun r => relate?.relateLists r xs ys := by
    induction xs generalizing ys with
    | nil => exact consistent_holds _
    | cons x xs ih =>
      cases ys with
      | nil => exact consistent_holds _
      | cons y ys =>
        simp only [relate?.relateLists]
        split
        · exact ih fun x' hx' => hitems x' (List.mem_cons_of_mem _ hx')
        · exact hitems x (List.mem_cons_self ..) y
  induction a using Value.induction generalizing b with
  | step a ih =>
    rcases relate?_cases a b with h | h <;> simp only [fun r => (h r).1]
    · exact hlists ih
    · exact relateAtoms_consistent a b

end Value

end Winnow
