import Winnow.Proofs.Memo.Recent
/-! # What a store was asked

A history lists what a store of recent entries was asked, the latest first, and `after` is the store that it
leaves. Whatever was asked, the keys of a store that was empty are told apart and no more entries are held
than its bound allows (`WellKept`): each call keeps this, so a history does. -/

namespace Winnow.Recent

variable {κ ν : Type}

/-- One thing that a store is asked. -/
inductive Call (κ ν : Type)
  | get (k : κ)
  | put (k : κ) (v : ν)
  | pop (k : κ)
  | contains (k : κ)
  | values
  | clear

/-- What a store was asked, the latest first. -/
abbrev History (κ ν : Type) := List (Call κ ν)

theorem make?_int {n : Int} (hn : 1 ≤ n) :
    (make? (.int n) : Outcome (Recent κ ν)) = .ok { maxSize := n.toNat, bound := .int n } := by
  rw [make?, readBound_int, if_neg (by omega), Outcome.map_ok]

variable [BEq κ]

/-- The store that a call leaves. -/
def Call.next (s : Recent κ ν) : Call κ ν → Recent κ ν
  | get k => (s.get k).2
  | put k v => s.put k v
  | pop k => (s.pop k).2
  | contains _ | values => s
  | clear => s.clear

/-- The store that a history leaves. -/
def after (s : Recent κ ν) : History κ ν → Recent κ ν
  | [] => s
  | c :: earlier => c.next (s.after earlier)

/-- Does no key count as equal to one behind it? -/
def Apart (entries : List (κ × ν)) : Prop := entries.Pairwise fun e f => (e.1 == f.1) = false

/-- Are the keys told apart, and the entries within the bound? -/
structure WellKept (s : Recent κ ν) : Prop where
  apart : Apart s.entries
  size_le : s.size ≤ s.maxSize

/-- The entries with one more, the most recent, in place of any under its key. -/
def refreshed (entries : List (κ × ν)) (k : κ) (v : ν) : List (κ × ν) := without entries k ++ [(k, v)]

variable {s : Recent κ ν} {k : κ} {v : ν} {es : List (κ × ν)}

/-! ## Calls -/

theorem get_of_find (h : s.find? k = some v) :
    s.get k = (some v, { s with entries := refreshed s.entries k v, hits := s.hits + 1 }) := by
  rw [get, h]
  rfl

theorem get_of_not_find (h : s.find? k = none) : s.get k = (none, { s with misses := s.misses + 1 }) := by
  rw [get, h]

theorem put_entries : (s.put k v).entries =
    (refreshed s.entries k v).drop ((refreshed s.entries k v).length - s.maxSize) := rfl

@[simp] theorem maxSize_next (c : Call κ ν) : (c.next s).maxSize = s.maxSize := by
  cases c with
  | get k => exact maxSize_get
  | _ => rfl

@[simp] theorem maxSize_after (h : History κ ν) : (s.after h).maxSize = s.maxSize := by
  induction h with
  | nil => rfl
  | cons c h ih => exact (maxSize_next c).trans ih

/-! ## Keys -/

theorem mem_without_iff {e : κ × ν} : e ∈ without es k ↔ e ∈ es ∧ (k == e.1) = false := by
  rw [without, List.mem_filter, Bool.not_eq_true']

theorem mem_put {e : κ × ν} (he : e ∈ (s.put k v).entries) :
    e ∈ s.entries ∧ (k == e.1) = false ∨ e = (k, v) := by
  rcases List.mem_append.1 (List.mem_of_mem_drop he) with he | he
  · exact .inl (mem_without_iff.1 he)
  · exact .inr (List.mem_singleton.1 he)

theorem without_eq_self (h : ∀ e ∈ es, (k == e.1) = false) : without es k = es :=
  List.filter_eq_self.2 fun e he => by rw [h e he, Bool.not_false]

theorem find?_eq_none : s.find? k = none ↔ ∀ e ∈ s.entries, (k == e.1) = false := by
  simp only [find?, List.lookup_eq_none_iff, bne, Bool.not_eq_true']

theorem contains_iff : s.contains k = true ↔ ∃ e ∈ s.entries, (k == e.1) = true := by
  rw [contains, ← not_iff_not, Bool.not_eq_true, Option.isSome_eq_false_iff, Option.isNone_iff_eq_none,
    find?_eq_none]
  simp

theorem length_without_lt (h : s.contains k = true) : (without s.entries k).length < s.size := by
  obtain ⟨e, he, hk⟩ := contains_iff.1 h
  refine List.length_filter_lt_length_iff_exists.2 ⟨e, he, ?_⟩
  rw [hk]
  decide

theorem length_refreshed : (refreshed es k v).length = (without es k).length + 1 := by
  rw [refreshed, List.length_append, List.length_singleton]

theorem Apart.without (h : Apart es) : Apart (without es k) := List.Pairwise.filter _ h

theorem WellKept.of_nil (h : s.entries = []) : WellKept s := by
  refine ⟨?_, ?_⟩
  · rw [h]
    exact .nil
  · rw [size, h]
    exact Nat.zero_le _

variable [PartialEquivBEq κ]

/-- Where keys are told apart, the only value under a key is found. -/
theorem Apart.find?_eq_some_iff (h : Apart s.entries) :
    s.find? k = some v ↔ ∃ k', (k == k') = true ∧ (k', v) ∈ s.entries := by
  refine ⟨find?_eq_some, ?_⟩
  rintro ⟨k', heq, hmem⟩
  unfold find?
  revert h hmem
  generalize s.entries = entries
  intro h hmem
  induction entries with
  | nil => cases hmem
  | cons e es ih =>
    obtain ⟨he, hes⟩ := List.pairwise_cons.1 h
    rw [List.lookup_cons]
    rcases List.mem_cons.1 hmem with rfl | hmem
    · rw [heq]
    · have hne : (k == e.1) = false := by
        rw [BEq.congr_left heq, BEq.comm]
        exact he (k', v) hmem
      rw [hne]
      exact ih hes hmem

theorem contains_pop (j : κ) : (s.pop j).2.contains k = (!(k == j) && s.contains k) := by
  rw [Bool.eq_iff_iff, Bool.and_eq_true, Bool.not_eq_true', contains_iff, contains_iff]
  constructor
  · rintro ⟨e, he, hk⟩
    obtain ⟨he, hj⟩ := mem_without_iff.1 he
    refine ⟨?_, e, he, hk⟩
    rw [BEq.congr_left hk, BEq.comm, hj]
  · rintro ⟨hkj, e, he, hk⟩
    refine ⟨e, mem_without_iff.2 ⟨he, ?_⟩, hk⟩
    rw [← BEq.congr_right hk, BEq.comm, hkj]

theorem Apart.refreshed (h : Apart es) : Apart (refreshed es k v) := by
  refine List.pairwise_append.2 ⟨h.without, List.pairwise_singleton .., fun e he f hf => ?_⟩
  obtain rfl := List.mem_singleton.1 hf
  rw [BEq.comm]
  exact (mem_without_iff.1 he).2

/-- Among keys that are told apart one at most counts as a given one. -/
theorem length_le_of_apart {ks : List κ} (h : ks.Pairwise fun i j => (i == j) = false) (k : κ) :
    ks.length ≤ (ks.filter fun i => !(k == i)).length + 1 := by
  induction ks with
  | nil => exact Nat.zero_le _
  | cons i ks ih =>
    obtain ⟨hi, hks⟩ := List.pairwise_cons.1 h
    cases hk : k == i with
    | true =>
      have hrest : (ks.filter fun i => !(k == i)) = ks := List.filter_eq_self.2 fun j hj => by
        rw [BEq.congr_left hk, hi j hj, Bool.not_false]
      rw [List.filter_cons_of_neg (by rw [hk]; decide), hrest]
      exact Nat.le_refl _
    | false =>
      rw [List.filter_cons_of_pos (by rw [hk]; rfl)]
      exact Nat.succ_le_succ (ih hks)

theorem Apart.length_le (h : Apart es) (k : κ) : es.length ≤ (Recent.without es k).length + 1 := by
  have hle := length_le_of_apart (List.pairwise_map.2 h) k
  rwa [List.filter_map, List.length_map, List.length_map] at hle

/-! ## Stores that are well kept -/

theorem Apart.length_refreshed (h : Apart s.entries) (hk : s.contains k = true) :
    (Recent.refreshed s.entries k v).length = s.size := by
  have hlt := length_without_lt hk
  have hle := h.length_le k
  rw [Recent.length_refreshed]
  exact Nat.le_antisymm hlt hle

theorem WellKept.next (h : WellKept s) (c : Call κ ν) : WellKept (c.next s) := by
  cases c with
  | get k =>
    cases hk : s.find? k with
    | none =>
      rw [Call.next, get_of_not_find hk]
      exact ⟨h.apart, h.size_le⟩
    | some v =>
      have hcontains : s.contains k = true := by rw [contains, hk]; rfl
      rw [Call.next, get_of_find hk]
      exact ⟨h.apart.refreshed, (h.apart.length_refreshed hcontains).trans_le h.size_le⟩
  | put k v =>
    refine ⟨h.apart.refreshed.sublist (List.drop_sublist ..), ?_⟩
    rw [Call.next, size, put_entries, List.length_drop, maxSize_put]
    omega
  | pop k => exact ⟨h.apart.without, (List.length_filter_le ..).trans h.size_le⟩
  | contains _ | values => exact h
  | clear => exact ⟨.nil, Nat.zero_le _⟩

theorem WellKept.after (hs : WellKept s) (h : History κ ν) : WellKept (s.after h) := by
  induction h with
  | nil => exact hs
  | cons c h ih => exact ih.next c

end Winnow.Recent
