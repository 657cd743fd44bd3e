import Mathlib.Data.List.Perm.Basic
import Winnow.Proofs.Number.Decimal
import Winnow.Proofs.Transport.MessagePack
import Winnow.Transport.Canonical
/-! # Canonical bytes tell canonical forms apart

A canonical form is read back from its bytes, so values with the same canonical bytes have the same
canonical form. What that says of the values depends on what they are: numbers and lists of given length
come apart into their parts, and so do mappings with known text keys. -/

namespace Winnow.Canonical
open MessagePack

/-! ## Bytes and forms -/

theorem readBy_tagged {how : Reading} {tag : String} {parts : List Value} (h : ∀ p ∈ parts, ReadBy how id p) :
    ReadBy how id (tagged tag parts) := by
  show ReadBy.itemsReadBy how id (.text tag :: parts)
  exact ⟨trivial, itemsReadBy_iff.2 h⟩

theorem ofValue_int (i : Int) : ofValue (.int i) =
    if (encodeInt? i).isSome then .int i else tagged intTag [.text (toString i)] := rfl

theorem ofItems_eq (items : List Value) : ofValue.ofItems items = items.map ofValue := by
  induction items with
  | nil => rfl
  | cons x xs ih => simp [ofValue.ofItems, ih]

theorem ofEntries_eq (entries : List (Value × Value)) :
    ofValue.ofEntries entries = entries.map fun e => (e.1.display, ofValue e.2) := by
  induction entries with
  | nil => rfl
  | cons e es ih => rcases e with ⟨k, v⟩; simp [ofValue.ofEntries, ih]

theorem mem_orderItems {items : List Value} {x : Value} : x ∈ orderItems items ↔ x ∈ items := by
  simp [orderItems, List.mem_mergeSort]

theorem ofValue_list (items : List Value) : ofValue (.list items) = tagged listTag [.list (items.map ofValue)] := by
  rw [← ofItems_eq]
  rfl

/-- Every canonical form is read back as it is. -/
theorem readBy_ofValue (how : Reading) (v : Value) : ReadBy how id (ofValue v) := by
  induction v using Value.induction with
  | step v ih =>
    have sequence (tag : String) {items forms : List Value} (hitems : ∀ x ∈ forms, x ∈ items.map ofValue)
        (hih : ∀ x ∈ items, ReadBy how id (ofValue x)) : ReadBy how id (tagged tag [.list forms]) := by
      refine readBy_tagged fun p hp => ?_
      obtain rfl := List.mem_singleton.1 hp
      refine itemsReadBy_iff.2 fun x hx => ?_
      obtain ⟨y, hy, rfl⟩ := List.mem_map.1 (hitems x hx)
      exact hih y hy
    cases v with
    | int i =>
      rw [ofValue_int]
      split
      · trivial
      · exact readBy_tagged fun p hp => by obtain rfl := List.mem_singleton.1 hp; trivial
    | list items => exact sequence listTag (fun x hx => ofItems_eq items ▸ hx) ih
    | tuple items => exact sequence listTag (fun x hx => ofItems_eq items ▸ hx) ih
    | set items => exact sequence setTag (fun x hx => ofItems_eq items ▸ mem_orderItems.1 hx) ih
    | object entries =>
      refine readBy_tagged fun p hp => ?_
      obtain rfl := List.mem_singleton.1 hp
      refine itemsReadBy_iff.2 fun x hx => ?_
      obtain ⟨e, he, rfl⟩ := List.mem_map.1 hx
      rw [orderKeys, List.mem_mergeSort, ofEntries_eq] at he
      obtain ⟨entry, hentry, rfl⟩ := List.mem_map.1 he
      exact ⟨trivial, ih _ (Value.mem_parts_object hentry).2, trivial⟩
    | _ => simp [ofValue, ofCallable, tagged, ReadBy, ReadBy.itemsReadBy]

theorem bytes_eq_ok {v : Value} {b : List UInt8} : bytes v = .ok b ↔ encode (ofValue v) = .ok b := by
  unfold bytes
  split <;> simp_all

/-- Values with the same canonical bytes have the same canonical form. -/
theorem ofValue_eq_of_bytes {v w : Value} {b : List UInt8} (hv : bytes v = .ok b) (hw : bytes w = .ok b) :
    ofValue v = ofValue w := by
  have hv := readAll_encode (readBy_ofValue plainReading v) (bytes_eq_ok.1 hv)
  have hw := readAll_encode (readBy_ofValue plainReading w) (bytes_eq_ok.1 hw)
  rw [Value.mapMoments_id] at hv hw
  exact Except.ok.inj (hv.symm.trans hw)

/-! ## Forms and values -/

theorem ofValue_int_inj {i j : Int} (h : ofValue (.int i) = ofValue (.int j)) : i = j := by
  rw [ofValue_int, ofValue_int] at h
  split at h <;> split at h
  · exact Value.int.inj h
  · cases h
  · cases h
  · simp only [tagged, Value.list.injEq, List.cons.injEq, Value.text.injEq, and_true, true_and] at h
    exact intText_inj h

/-- Only a number has the form of a number. -/
theorem eq_int_of_ofValue {v : Value} {i : Int} (h : ofValue v = .int i) : v = .int i := by
  cases v with
  | int j =>
    rw [ofValue_int] at h
    split at h
    · exact h
    · cases h
  | _ => first | exact h | cases h

theorem ofValue_list_inj {xs ys : List Value} (h : ofValue (.list xs) = ofValue (.list ys)) :
    xs.map ofValue = ys.map ofValue := by
  simpa only [ofValue_list, tagged, Value.list.injEq, List.cons.injEq, and_true, true_and] using h

/-- The parts of a key come apart. -/
theorem ofValue_triple_inj {a b c a' b' c' : Value}
    (h : ofValue (.list [a, b, c]) = ofValue (.list [a', b', c'])) :
    ofValue a = ofValue a' ∧ ofValue b = ofValue b' ∧ ofValue c = ofValue c' := by
  simpa using ofValue_list_inj h

/-- Entries in another order are the same when their keys stand in one order without repetition. -/
theorem eq_of_perm_of_keys {α : Type} {l l' : List (String × α)} (hperm : l.Perm l')
    (hkeys : l.map (·.1) = l'.map (·.1)) (hnodup : (l.map (·.1)).Nodup) : l = l' := by
  induction l generalizing l' with
  | nil => exact hperm.symm.eq_nil.symm
  | cons a l ih =>
    cases l' with
    | nil => exact absurd hkeys (by simp)
    | cons b l' =>
      simp only [List.map_cons, List.cons.injEq] at hkeys
      rw [List.map_cons, List.nodup_cons] at hnodup
      obtain rfl : a = b := by
        rcases List.mem_cons.1 (hperm.mem_iff.1 (List.mem_cons_self ..)) with rfl | hmem
        · rfl
        · exact absurd (hkeys.2 ▸ List.mem_map_of_mem hmem) hnodup.1
      rw [ih (List.perm_cons a |>.1 hperm) hkeys.2 hnodup.2]

theorem orderKeys_perm (entries : List (String × Value)) : (orderKeys entries).Perm entries :=
  List.mergeSort_perm ..

theorem ofValue_ofPairs (l : List (String × Value)) :
    ofValue (.ofPairs l) = tagged mapTag
      [.list ((orderKeys (l.map fun e => (e.1, ofValue e.2))).map fun (k, v) => .list [.text k, v])] := by
  have hentries : ofValue.ofEntries (l.map fun (k, v) => (.text k, v)) =
      l.map fun e => (e.1, ofValue e.2) := by
    rw [ofEntries_eq, List.map_map]; rfl
  rw [← hentries]
  rfl

/-- Mappings with the same text keys come apart into the values under them. -/
theorem ofValue_ofPairs_inj {l l' : List (String × Value)} (h : ofValue (.ofPairs l) = ofValue (.ofPairs l'))
    (hkeys : l.map (·.1) = l'.map (·.1)) (hnodup : (l.map (·.1)).Nodup) :
    l.map (fun e => ofValue e.2) = l'.map fun e => ofValue e.2 := by
  have keys (l : List (String × Value)) :
      (l.map fun e => (e.1, ofValue e.2)).map (·.1) = l.map (·.1) := by simp
  have hsorted : orderKeys (l.map fun e => (e.1, ofValue e.2)) =
      orderKeys (l'.map fun e => (e.1, ofValue e.2)) := by
    simp only [ofValue_ofPairs, tagged, Value.list.injEq, List.cons.injEq, and_true, true_and] at h
    refine List.map_injective_iff.2 (fun a b hab => ?_) h
    simp only [Value.list.injEq, List.cons.injEq, Value.text.injEq, and_true] at hab
    exact Prod.ext hab.1 hab.2
  have hperm := (orderKeys_perm _).symm.trans ((List.Perm.of_eq hsorted).trans (orderKeys_perm _))
  have heq := eq_of_perm_of_keys hperm (by rw [keys, keys, hkeys]) (by rwa [keys])
  have hvalues := congrArg (List.map (·.2)) heq
  rwa [List.map_map, List.map_map] at hvalues

/-! ## Which values fit into a key -/

/-- Is there room for the form of the value? Lengths and nesting of forms are limited. -/
def FitsIn (room : Nat) (v : Value) : Prop := ∃ bytes, encodeWithin room (ofValue v) = .ok bytes

/-- Can the form of the value stand in a list of three? -/
abbrev Fits (v : Value) : Prop := FitsIn (maxNesting - 2) v

variable {room : Nat}

theorem fitsIn_nat {n : Nat} (hn : n < 2 ^ 64) : FitsIn (room + 1) (.int n) := by
  obtain ⟨bytes, hbytes⟩ := exists_encodeInt? hn
  exact ⟨bytes, by rw [ofValue_int, if_pos (by rw [hbytes]; rfl), encodeWithin_int_eq_ok, hbytes]⟩

theorem fitsIn_text {s : String} (hs : s.utf8ByteSize < 2 ^ 32) : FitsIn (room + 1) (.text s) :=
  exists_encodeWithin_text hs

/-- A tagged list of forms needs room for two lists. -/
theorem exists_encodeWithin_tagged {tag : String} {forms : List Value} (htag : tag.utf8ByteSize < 2 ^ 32)
    (hlen : forms.length < 2 ^ 32) (hforms : ∀ x ∈ forms, ∃ b, encodeWithin room x = .ok b) :
    ∃ b, encodeWithin (room + 2) (tagged tag [.list forms]) = .ok b := by
  refine (exists_encodeWithin_list _ (by simp)).2 fun x hx => ?_
  simp only [List.mem_cons, List.not_mem_nil, or_false] at hx
  rcases hx with rfl | rfl
  · exact exists_encodeWithin_text htag
  · exact (exists_encodeWithin_list _ hlen).2 hforms

theorem fitsIn_list {items : List Value} (hlen : items.length < 2 ^ 32)
    (hitems : ∀ x ∈ items, FitsIn room x) :
    FitsIn (room + 2) (.list items) := by
  rw [FitsIn, ofValue_list]
  refine exists_encodeWithin_tagged (by decide) (by simpa using hlen) fun x hx => ?_
  obtain ⟨y, hy, rfl⟩ := List.mem_map.1 hx
  exact hitems y hy

theorem fitsIn_ofPairs {l : List (String × Value)} (hlen : l.length < 2 ^ 32)
    (hkeys : ∀ e ∈ l, e.1.utf8ByteSize < 2 ^ 32) (hvalues : ∀ e ∈ l, FitsIn (room + 1) e.2) :
    FitsIn (room + 4) (.ofPairs l) := by
  rw [FitsIn, ofValue_ofPairs]
  refine exists_encodeWithin_tagged (by decide) (by simpa [orderKeys] using hlen) fun x hx => ?_
  obtain ⟨p, hp, rfl⟩ := List.mem_map.1 hx
  obtain ⟨e, he, rfl⟩ := List.mem_map.1 ((orderKeys_perm _).mem_iff.1 hp)
  refine (exists_encodeWithin_list _ (by simp)).2 fun y hy => ?_
  simp only [List.mem_cons, List.not_mem_nil, or_false] at hy
  rcases hy with rfl | rfl
  · exact exists_encodeWithin_text (hkeys e he)
  · exact hvalues e he

theorem fitsIn_callable {c : Callable} (hc : c.name.utf8ByteSize < 2 ^ 32) :
    FitsIn (room + 2) (.callable c) := by
  have parts (kind : String) (hkind : kind.utf8ByteSize < 2 ^ 32) :
      ∃ b, encodeWithin (room + 2) (tagged callableTag [.text kind, .text c.name]) = .ok b := by
    refine (exists_encodeWithin_list _ (by simp)).2 fun x hx => ?_
    simp only [List.mem_cons, List.not_mem_nil, or_false] at hx
    rcases hx with rfl | rfl | rfl
    · exact exists_encodeWithin_text (by decide)
    · exact exists_encodeWithin_text hkind
    · exact exists_encodeWithin_text hc
  cases c with
  | function => exact parts "function" (by decide)
  | type => exact parts "type" (by decide)

theorem bytes_triple {a b c : Value} :
    (∃ bytes, Canonical.bytes (.list [a, b, c]) = .ok bytes) ↔ Fits a ∧ Fits b ∧ Fits c := by
  have hform : ofValue (.list [a, b, c]) =
      .list [.text listTag, .list [ofValue a, ofValue b, ofValue c]] := rfl
  have htag : ∃ bytes, encodeWithin 511 (.text listTag) = .ok bytes := ⟨_, rfl⟩
  have hpair := exists_encodeWithin_list 511
    (show [.text listTag, .list [ofValue a, ofValue b, ofValue c]].length < 2 ^ 32 by simp)
  have hparts := exists_encodeWithin_list 510 (show [ofValue a, ofValue b, ofValue c].length < 2 ^ 32 by simp)
  simp only [List.mem_cons, List.not_mem_nil, or_false, forall_eq_or_imp, forall_eq] at hpair hparts
  simp only [bytes_eq_ok, hform, encode]
  exact ⟨fun h => hparts.1 (hpair.1 h).2, fun h => hpair.2 ⟨htag, hparts.2 h⟩⟩

theorem bytes_error {v : Value} {f : Failure} (h : Canonical.bytes v = .error f) : f = .fault .badValue := by
  unfold Canonical.bytes at h
  split at h
  · cases h
  · exact (Except.error.inj h).symm

end Winnow.Canonical
