import Winnow.Proofs.Outcome
import Winnow.Order.SortKey
/-! # Sort keys that are read

Every sort key that is read has a field, and an order that is read has a key. Such an order, written out, is read as
it is again. All failures on the way are failures of options. -/

namespace Winnow

open Outcome

/-- Is it a failure of options? -/
def Failure.IsOfOptions (f : Failure) : Prop := ∃ e option v, f = .options e option v

theorem failsAs_options {α : Type} (e : OptionError) (option v : Value) :
    FailsAs Failure.IsOfOptions (.error (.options e option v) : Outcome α) :=
  failsAs_error.2 ⟨e, option, v, rfl⟩

namespace SortKey

variable {v : Value} {s : String} {k : SortKey} {keys : List SortKey}

theorem readField_eq_ok : readField v = .ok s ↔ v = .text s ∧ s ≠ "" := by
  cases v with
  | text t =>
    rw [readField]
    split
    · next ht => simp_all [reject]
    · next ht =>
      simp only [Except.ok.injEq, Value.text.injEq]
      constructor
      · rintro rfl
        exact ⟨rfl, by simpa using ht⟩
      · exact fun h => h.1
  | _ => exact iff_of_false nofun nofun

/-- A sort key that is written out is read again. -/
theorem ofValue_toValue (h : k.field ≠ "") : ofValue k.toValue = .ok k := by
  have hfield : readField (.text k.field) = .ok k.field := readField_eq_ok.2 ⟨rfl, h⟩
  have hname : direction? (.text k.direction.name) = some k.direction := by
    cases k.direction <;> decide +kernel
  have hdirection : readDirection (.text k.direction.name) = .ok k.direction := by rw [readDirection, hname]
  simp [toValue, Value.ofPairs, ofValue, Value.get?, hfield, hdirection]

theorem field_of_ofValue (h : ofValue v = .ok k) : k.field ≠ "" := by
  unfold ofValue at h
  split at h
  · obtain ⟨_, hfield, rfl⟩ := map_eq_ok.1 h
    exact (readField_eq_ok.1 hfield).2
  · split at h
    · cases h
    · obtain ⟨_, hfield, h⟩ := bind_eq_ok.1 h
      obtain ⟨_, -, h⟩ := bind_eq_ok.1 h
      obtain rfl := Except.ok.inj h
      exact (readField_eq_ok.1 hfield).2
  · split at h
    · obtain ⟨_, hfield, rfl⟩ := map_eq_ok.1 h
      exact (readField_eq_ok.1 hfield).2
    · cases h

/-- An order that is read has keys, with fields. -/
theorem readAll_spec (hv : v.isNull = false) (h : readAll v = .ok keys) : keys ≠ [] ∧ ∀ k ∈ keys, k.field ≠ "" := by
  rw [readAll, hv, if_neg Bool.false_ne_true] at h
  split at h
  · cases h
  · next items hsome hlisted =>
    have hkeys := mapM_eq_ok.1 h
    refine ⟨?_, fun k hk => ?_⟩
    · rintro rfl
      cases hkeys
      exact hsome rfl
    · obtain ⟨_, -, hread⟩ := (Paired.of_forall₂ hkeys).2 k hk
      exact field_of_ofValue hread
  · obtain ⟨k, hk, rfl⟩ := map_eq_ok.1 h
    exact ⟨List.cons_ne_nil _ _, List.forall_mem_singleton.2 (field_of_ofValue hk)⟩

theorem readAll_toValue (hne : keys ≠ []) (h : ∀ k ∈ keys, k.field ≠ "") :
    readAll (.list (keys.map toValue)) = .ok keys := by
  obtain ⟨k, ks, rfl⟩ := List.exists_cons_of_ne_nil hne
  show (List.map toValue (k :: ks)).mapM ofValue = _
  rw [mapM_eq_ok, List.forall₂_map_left_iff, List.forall₂_same]
  exact fun k hk => ofValue_toValue (h k hk)

theorem failsAs_readField : FailsAs Failure.IsOfOptions (readField v) := by
  rw [readField.eq_def]
  split
  · split
    · exact failsAs_options _ _ _
    · exact failsAs_ok _
  · exact failsAs_options _ _ _

theorem failsAs_ofValue : FailsAs Failure.IsOfOptions (ofValue v) := by
  have hdirection (v : Value) : FailsAs Failure.IsOfOptions (readDirection v) := by
    unfold readDirection
    split
    · exact failsAs_ok _
    · exact failsAs_options _ _ _
  unfold ofValue
  split
  · exact failsAs_map.2 failsAs_readField
  · split
    · exact failsAs_options _ _ _
    · exact failsAs_bind.2 ⟨failsAs_readField, fun _ _ => failsAs_bind.2 ⟨hdirection _, fun _ _ => failsAs_ok _⟩⟩
  · split
    · exact failsAs_map.2 failsAs_readField
    · exact failsAs_options _ _ _

theorem failsAs_readAll : FailsAs Failure.IsOfOptions (readAll v) := by
  unfold readAll
  split
  · exact failsAs_ok _
  · split
    · exact failsAs_options _ _ _
    · exact failsAs_mapM fun _ _ => failsAs_ofValue
    · exact failsAs_map.2 failsAs_ofValue

end SortKey

end Winnow
