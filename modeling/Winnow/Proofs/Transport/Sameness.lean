import Mathlib.Data.List.Nodup
import Mathlib.Data.List.Perm.Basic
import Winnow.Proofs.Lists
import Winnow.Proofs.Time.IsoText
import Winnow.Proofs.Transport.Canonical
import Winnow.Proofs.Value.Parts
/-! # What canonical bytes tell apart

For scalars with a form of their own, sequences of such values and mappings with text keys, canonical
bytes are equal exactly when the values are the same but for the order of mapping entries and for lists
standing where tuples stand. The form of a value says of which kind it is (`formKind?_ofValue`), so equal
forms have one kind, and each kind gives back what the value is made of. -/

namespace Winnow.Canonical
open MessagePack

/-- Has the value a form of its own? What occurs in it is not looked at, but keys have to be texts that
are told apart. -/
def Plain : Value → Prop
  | .null | .bool _ | .int _ | .float _ | .text _ | .bytes _ | .date _ | .moment _ | .pattern _ | .list _
  | .tuple _ => True
  | .object entries => (∀ e ∈ entries, ∃ k, e.1 = .text k) ∧ Value.KeysApart entries
  | _ => False

/-- The same but for the order of mapping entries, and for lists standing where tuples stand. Scalars are
of one type with one content; floats are compared by their bits. -/
inductive Same : Value → Value → Prop
  | null : Same .null .null
  | bool (b : Bool) : Same (.bool b) (.bool b)
  | int (i : Int) : Same (.int i) (.int i)
  | float {f g : Float} (h : f.toBits = g.toBits) : Same (.float f) (.float g)
  | text (s : String) : Same (.text s) (.text s)
  | bytes (b : List UInt8) : Same (.bytes b) (.bytes b)
  | date (d : Date) : Same (.date d) (.date d)
  | moment (m : Moment) : Same (.moment m) (.moment m)
  | pattern (p : Pattern) : Same (.pattern p) (.pattern p)
  | sequence {v w : Value} {xs ys : List Value} (hv : v.items? = some xs) (hw : w.items? = some ys)
      (h : List.Forall₂ Same xs ys) : Same v w
  | object {es es' fs : List (Value × Value)} (hperm : es.Perm es') (hkeys : es'.map (·.1) = fs.map (·.1))
      (h : List.Forall₂ Same (es'.map (·.2)) (fs.map (·.2))) : Same (.object es) (.object fs)

/-! ## Kinds -/

inductive Kind
  | null | bool | int | float | text | bytes | date | moment | pattern | sequence | mapping

def kind? : Value → Option Kind
  | .null => some .null
  | .bool _ => some .bool
  | .int _ => some .int
  | .float _ => some .float
  | .text _ => some .text
  | .bytes _ => some .bytes
  | .date _ => some .date
  | .moment _ => some .moment
  | .pattern _ => some .pattern
  | .list _ | .tuple _ => some .sequence
  | .object _ => some .mapping
  | _ => none

def kindsOfTags : List (String × Kind) :=
  [(intTag, .int), (dateTag, .date), (momentTag, .moment), (patternTag, .pattern), (listTag, .sequence),
    (mapTag, .mapping)]

/-- The kind of the value that has the form. -/
def formKind? : Value → Option Kind
  | .list (.text tag :: _) => kindsOfTags.lookup tag
  | form => kind? form

variable {v w : Value}

theorem formKind?_ofValue (hv : Plain v) : formKind? (ofValue v) = kind? v := by
  cases v with
  | int i =>
    rw [ofValue_int]
    split
    · rfl
    · rfl
  | set | record | span | callable | missing | extension | other => exact hv.elim
  | _ => rfl

theorem kind?_eq_of_ofValue (hv : Plain v) (hw : Plain w) (h : ofValue v = ofValue w) : kind? v = kind? w := by
  rw [← formKind?_ofValue hv, h, formKind?_ofValue hw]

/-! ## Sequences -/

theorem tagged_inj {t t' : String} {ps ps' : List Value} : tagged t ps = tagged t' ps' ↔ t = t' ∧ ps = ps' := by
  simp [tagged]

theorem ofValue_of_items? {xs : List Value} (h : v.items? = some xs) :
    ofValue v = tagged listTag [.list (xs.map ofValue)] := by
  cases v with
  | list items | tuple items =>
    obtain rfl := Option.some.inj h
    rw [← ofItems_eq]
    rfl
  | _ => cases h

theorem parts_of_items? {xs : List Value} (h : v.items? = some xs) : v.parts = xs := by
  cases v with
  | list | tuple => exact Option.some.inj h
  | _ => cases h

theorem items?_of_kind (h : kind? v = some .sequence) : ∃ xs, v.items? = some xs := by
  cases v with
  | list xs | tuple xs => exact ⟨xs, rfl⟩
  | _ => cases h

/-! ## Mappings -/

/-- The entries of the form of a mapping, as they stand. -/
def formEntries (es : List (Value × Value)) : List (String × Value) :=
  es.map fun e => (e.1.display, ofValue e.2)

variable {es fs : List (Value × Value)}

theorem ofValue_object : ofValue (.object es) =
    tagged mapTag [.list ((orderKeys (formEntries es)).map fun (k, v) => .list [.text k, v])] := by
  rw [formEntries, ← ofEntries_eq]
  rfl

theorem orderKeys_eq_of_ofValue (h : ofValue (.object es) = ofValue (.object fs)) :
    orderKeys (formEntries es) = orderKeys (formEntries fs) := by
  simp only [ofValue_object, tagged_inj, List.cons.injEq, and_true, true_and, Value.list.injEq] at h
  refine List.map_injective_iff.2 (fun a b hab => ?_) h
  simp only [Value.list.injEq, List.cons.injEq, Value.text.injEq, and_true] at hab
  exact Prod.ext hab.1 hab.2

/-- Entries in any order are the same in the order of their keys, when the keys are told apart. -/
theorem orderKeys_eq_of_perm {l l' : List (String × Value)} (hperm : l.Perm l') (hkeys : (l.map (·.1)).Nodup) :
    orderKeys l = orderKeys l' := by
  have hsorted (l : List (String × Value)) :
      (orderKeys l).Pairwise fun a b => (!decide (b.1 < a.1)) = true := by
    refine List.pairwise_mergeSort (fun a b c hab hbc => ?_) (fun a b => ?_) l
    · simp only [Bool.not_eq_true', decide_eq_false_iff_not, String.not_lt] at hab hbc ⊢
      exact String.le_trans hab hbc
    · simpa only [Bool.or_eq_true, Bool.not_eq_true', decide_eq_false_iff_not, String.not_lt] using
        String.le_total a.1 b.1
  refine List.Perm.eq_of_pairwise (fun a b ha hb hab hba => ?_) (hsorted l) (hsorted l')
    (((orderKeys_perm l).trans hperm).trans (orderKeys_perm l').symm)
  simp only [Bool.not_eq_true', decide_eq_false_iff_not, String.not_lt] at hab hba
  have ha : a ∈ l := (orderKeys_perm l).mem_iff.1 ha
  have hb : b ∈ l := hperm.mem_iff.2 ((orderKeys_perm l').mem_iff.1 hb)
  exact List.inj_on_of_nodup_map hkeys ha hb (String.le_antisymm hab hba)

theorem nodup_formEntries (h : Plain (.object es)) : ((formEntries es).map (·.1)).Nodup := by
  rw [formEntries, List.map_map, List.Nodup, List.pairwise_map]
  refine List.Pairwise.imp_of_mem (fun {a b} ha hb hab => ?_) h.2
  obtain ⟨k, hk⟩ := h.1 a ha
  obtain ⟨k', hk'⟩ := h.1 b hb
  rw [hk, hk'] at hab
  simpa [hk, hk', Value.display, Value.equal, Value.equalAtoms] using hab

/-- Entries that differ in order are entries in one order of the same keys. -/
theorem exists_perm_of_formEntries (h : (formEntries es).Perm (formEntries fs)) :
    ∃ es', es.Perm es' ∧ formEntries es' = formEntries fs := by
  have hall : List.Forall₂ (fun e p => (e.1.display, ofValue e.2) = p) es (formEntries es) := by
    rw [formEntries, List.forall₂_map_right_iff]
    exact List.forall₂_refl es
  have hcomp : Relation.Comp List.Perm (List.Forall₂ fun e p => (e.1.display, ofValue e.2) = p) es
      (formEntries fs) := by
    rw [← List.forall₂_comp_perm_eq_perm_comp_forall₂]
    exact ⟨_, hall, h⟩
  obtain ⟨es', hperm, hforms⟩ := hcomp
  refine ⟨es', hperm, ?_⟩
  rw [formEntries]
  exact List.forall₂_eq_eq_eq ▸ List.forall₂_map_left_iff.2 hforms

theorem keys_eq_of_formEntries (hes : ∀ e ∈ es, ∃ k, e.1 = .text k) (hfs : ∀ e ∈ fs, ∃ k, e.1 = .text k)
    (h : formEntries es = formEntries fs) : es.map (·.1) = fs.map (·.1) := by
  have hkey {es : List (Value × Value)} (hes : ∀ e ∈ es, ∃ k, e.1 = .text k) :
      (formEntries es).map (fun p => Value.text p.1) = es.map (·.1) := by
    rw [formEntries, List.map_map]
    refine List.map_congr_left fun e he => ?_
    obtain ⟨k, hk⟩ := hes e he
    simp [hk, Value.display]
  rw [← hkey hes, h, hkey hfs]

theorem values_eq_of_formEntries (h : formEntries es = formEntries fs) :
    (es.map (·.2)).map ofValue = (fs.map (·.2)).map ofValue := by
  have hvalues := congrArg (List.map (·.2)) h
  simpa [formEntries, Function.comp_def] using hvalues

theorem formEntries_eq (hkeys : es.map (·.1) = fs.map (·.1))
    (hvalues : (es.map (·.2)).map ofValue = (fs.map (·.2)).map ofValue) : formEntries es = formEntries fs := by
  have hzip (es : List (Value × Value)) :
      formEntries es = ((es.map (·.1)).map Value.display).zip ((es.map (·.2)).map ofValue) := by
    simp [formEntries, List.zip_map', Function.comp_def]
  rw [hzip, hzip, hkeys, hvalues]

theorem mem_parts_of_mem_values {x : Value} (hx : x ∈ es.map (·.2)) : x ∈ (Value.object es).parts := by
  obtain ⟨e, he, rfl⟩ := List.mem_map.1 hx
  exact (Value.mem_parts_object he).2

/-! ## Forms and sameness -/

theorem same_of_ofValue (hv : v.Throughout Plain) (hw : w.Throughout Plain) (h : ofValue v = ofValue w) :
    Same v w := by
  induction v using Value.induction generalizing w with
  | step v ih =>
    have hkind := kind?_eq_of_ofValue hv.here hw.here h
    have hitems {xs : List Value} (hxs : v.items? = some xs) (hseq : kind? w = some .sequence) : Same v w := by
      obtain ⟨ys, hys⟩ := items?_of_kind hseq
      rw [ofValue_of_items? hxs, ofValue_of_items? hys, tagged_inj] at h
      simp only [List.cons.injEq, Value.list.injEq, and_true, true_and] at h
      refine .sequence hxs hys (forall₂_of_map_eq h fun x hx y hy hxy => ?_)
      rw [← parts_of_items? hxs] at hx
      rw [← parts_of_items? hys] at hy
      exact ih x hx (hv.part hx) (hw.part hy) hxy
    cases v with
    | list xs | tuple xs => exact hitems rfl hkind.symm
    | null => cases w <;> first | exact .null | cases hkind
    | bool b => cases w <;> first | (cases h; exact .bool b) | cases hkind
    | text s => cases w <;> first | (cases h; exact .text s) | cases hkind
    | bytes b => cases w <;> first | (cases h; exact .bytes b) | cases hkind
    | float f => cases w <;> first | (cases h; exact .float rfl) | cases hkind
    | int i =>
      cases w with
      | int j =>
        obtain rfl := ofValue_int_inj h
        exact .int i
      | _ => cases hkind
    | date d =>
      cases w with
      | date e =>
        have htext : d.iso = e.iso := by simpa [ofValue, tagged_inj] using h
        obtain rfl := Date.iso_inj htext
        exact .date d
      | _ => cases hkind
    | moment m =>
      cases w with
      | moment n =>
        have htext : m.iso = n.iso := by simpa [ofValue, tagged_inj] using h
        obtain rfl := Moment.iso_inj htext
        exact .moment m
      | _ => cases hkind
    | pattern p =>
      cases w with
      | pattern q =>
        have hparts : p.source = q.source ∧ p.flags = q.flags := by simpa [ofValue, tagged_inj] using h
        obtain rfl : p = q := by
          cases p
          cases q
          simpa using hparts
        exact .pattern p
      | _ => cases hkind
    | object es =>
      cases w with
      | object fs =>
        have hsorted := orderKeys_eq_of_ofValue h
        have hperm := (orderKeys_perm _).symm.trans ((List.Perm.of_eq hsorted).trans (orderKeys_perm _))
        obtain ⟨es', hes, hforms⟩ := exists_perm_of_formEntries hperm
        have htexts : ∀ e ∈ es', ∃ k, e.1 = .text k := fun e he => hv.here.1 e (hes.mem_iff.2 he)
        refine .object hes (keys_eq_of_formEntries htexts hw.here.1 hforms)
          (forall₂_of_map_eq (values_eq_of_formEntries hforms) fun x hx y hy hxy => ?_)
        have hx := mem_parts_of_mem_values ((hes.map _).mem_iff.2 hx)
        have hy := mem_parts_of_mem_values hy
        exact ih x hx (hv.part hx) (hw.part hy) hxy
      | _ => cases hkind
    | _ => exact hv.here.elim

theorem ofValue_eq_of_same (hv : v.Throughout Plain) (hw : w.Throughout Plain) (h : Same v w) :
    ofValue v = ofValue w := by
  induction v using Value.induction generalizing w with
  | step v ih =>
    cases h with
    | @float f g hbits => rw [← FloatBits.ofBits_toBits f, hbits, FloatBits.ofBits_toBits]
    | sequence hxs hys hall =>
      rw [ofValue_of_items? hxs, ofValue_of_items? hys, map_eq_of_forall₂ hall]
      intro x hx y hy hxy
      rw [← parts_of_items? hxs] at hx
      rw [← parts_of_items? hys] at hy
      exact ih x hx (hv.part hx) (hw.part hy) hxy
    | @object es es' fs hes hkeys hall =>
      have hvalues : (es'.map (·.2)).map ofValue = (fs.map (·.2)).map ofValue := by
        refine map_eq_of_forall₂ hall fun x hx y hy hxy => ?_
        have hx := mem_parts_of_mem_values ((hes.map _).mem_iff.2 hx)
        have hy := mem_parts_of_mem_values hy
        exact ih x hx (hv.part hx) (hw.part hy) hxy
      have hperm : (formEntries es).Perm (formEntries es') := hes.map _
      rw [ofValue_object, ofValue_object, orderKeys_eq_of_perm hperm (nodup_formEntries hv.here),
        formEntries_eq hkeys hvalues]
    | _ => rfl

/-- Canonical bytes are equal exactly for values that are the same. -/
theorem bytes_eq_iff_same (hv : v.Throughout Plain) (hw : w.Throughout Plain) {a b : List UInt8}
    (ha : bytes v = .ok a) (hb : bytes w = .ok b) : a = b ↔ Same v w := by
  constructor
  · rintro rfl
    exact same_of_ofValue hv hw (ofValue_eq_of_bytes ha hb)
  · intro h
    have hforms := ofValue_eq_of_same hv hw h
    rw [bytes, hforms] at ha
    exact Except.ok.inj (ha.symm.trans hb)

theorem bytes_eq_of_reordered : ∃ a b,
    bytes (.ofPairs [("f", .tuple [.int 1]), ("g", .null)]) = .ok a ∧
    bytes (.ofPairs [("g", .null), ("f", .list [.int 1])]) = .ok b ∧ a = b := by
  obtain ⟨a, ha⟩ := Outcome.exists_eq_ok
    (show (bytes (.ofPairs [("f", .tuple [.int 1]), ("g", .null)])).toOption.isSome = true by cbv)
  obtain ⟨b, hb⟩ := Outcome.exists_eq_ok
    (show (bytes (.ofPairs [("g", .null), ("f", .list [.int 1])])).toOption.isSome = true by cbv)
  have hatoms : (Value.text "f").Throughout Plain ∧ (Value.text "g").Throughout Plain ∧
      Value.null.Throughout Plain ∧ (Value.int 1).Throughout Plain := by
    refine ⟨?_, ?_, ?_, ?_⟩ <;> exact (Value.throughout_atom rfl).2 trivial
  refine ⟨a, b, ha, hb, (bytes_eq_iff_same ?_ ?_ ha hb).2 ?_⟩
  · simp [Value.ofPairs, Value.throughout_object, Value.throughout_tuple, hatoms, Plain, Value.KeysApart,
      Value.equal, Value.equalAtoms]
  · simp [Value.ofPairs, Value.throughout_object, Value.throughout_list, hatoms, Plain, Value.KeysApart,
      Value.equal, Value.equalAtoms]
  · exact .object (.swap ..) rfl (.cons .null (.cons (.sequence rfl rfl (.cons (.int 1) .nil)) .nil))

end Winnow.Canonical
