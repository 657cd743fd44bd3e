import Winnow.Proofs.Memo.Results
import Winnow.Proofs.Memo.Retention
/-! # What a store of results was asked

A history lists what a store of results was asked, the latest first, and `after` is the store that it leaves.
A call on a collection makes it the most recent one and asks its results in turn (`Visited`); only a get on a
collection that is not there leaves all entries as they are. So the collections, and the results of each of
them, are told apart and within their bounds whatever was asked (`WellKept`). -/

namespace Winnow

namespace Recent

variable {κ ν : Type} [BEq κ] {s s' : Recent κ ν} {j : κ}

/-- Is `j` the most recent key now, with the others behind it as they were, as far as there is room? -/
structure Fronted (s s' : Recent κ ν) (j : κ) : Prop where
  keys : s'.keys = (j :: s.keys.filter fun i => !(j == i)).take s.maxSize
  maxSize : s'.maxSize = s.maxSize

theorem keys_modify (change : ν → ν) : (s.modify j change).keys = s.keys := by
  rw [keys, modify, List.map_map]
  congr 1
  refine List.map_congr_left fun e _ => ?_
  show (if j == e.1 then (e.1, change e.2) else e).1 = e.1
  split <;> rfl

variable [PartialEquivBEq κ]

theorem apart_iff_keys : Apart s.entries ↔ s.keys.Pairwise fun i j => (i == j) = false := by
  rw [keys, List.pairwise_reverse, List.pairwise_map, Apart]
  simp only [BEq.comm]

theorem WellKept.fronted_of_used (hs : WellKept s) {c : Call κ ν} (hc : c.used s = some j) :
    Fronted s (c.next s) j :=
  ⟨keys_of_used hs hc, maxSize_next c⟩

theorem WellKept.fronted (hs : WellKept s) (hj : Fronted s s' j) : WellKept s' := by
  have hapart : (j :: s.keys.filter fun i => !(j == i)).Pairwise fun i i' => (i == i') = false := by
    refine List.pairwise_cons.2 ⟨fun i hi => ?_, (apart_iff_keys.1 hs.apart).filter _⟩
    rw [← Bool.not_eq_true']
    exact (List.mem_filter.1 hi).2
  refine ⟨apart_iff_keys.2 (hj.keys ▸ hapart.sublist (List.take_sublist ..)), ?_⟩
  rw [← length_keys, hj.keys, hj.maxSize]
  exact List.length_take_le ..

theorem WellKept.unique {v v' : ν} [ReflBEq κ] (hs : WellKept s) (hv : (j, v) ∈ s.entries)
    (hv' : (j, v') ∈ s.entries) : v = v' := by
  have hfind := hs.apart.find?_eq_some_iff.2 ⟨j, BEq.rfl, hv⟩
  exact Option.some.inj (hfind.symm.trans (hs.apart.find?_eq_some_iff.2 ⟨j, BEq.rfl, hv'⟩))

end Recent

namespace ResultStore

variable {κ ν : Type}

/-- One thing that a store of results is asked. -/
inductive Call (κ ν : Type)
  | get (f : Fingerprint) (k : κ)
  | put (f : Fingerprint) (k : κ) (v : ν)
  | clear

/-- What a store of results was asked, the latest first. -/
abbrev History (κ ν : Type) := List (Call κ ν)

variable {s s' : ResultStore κ ν} {f : Fingerprint} {k : κ} {v : ν} {r : Recent κ ν} {E C : Nat}

/-! ## What a call does -/

/-- Are the results of the collection `f` now `r`, and is it the most recent collection, with the others
behind it as they were? -/
structure Visited (s s' : ResultStore κ ν) (f : Fingerprint) (r : Recent κ ν) : Prop where
  fronted : s.collections.Fronted s'.collections f
  entries : ∀ e ∈ s'.collections.entries, e ∈ s.collections.entries ∧ (f == e.1) = false ∨ e = (f, r)
  maxResults : s'.maxResults = s.maxResults

theorem Visited.of_held (hs : s.collections.WellKept) (hf : s.collections.find? f = some r)
    {change : Recent κ ν → Recent κ ν} (hcollections : s'.collections = (s.collections.get f).2.modify f change)
    (hmaxResults : s'.maxResults = s.maxResults) : Visited s s' f (change r) := by
  have hcontains : s.collections.contains f = true := by rw [Recent.contains, hf]; rfl
  have hfronted := hs.fronted_of_used (c := .get f) (if_pos hcontains)
  refine ⟨?_, fun e he => ?_, hmaxResults⟩
  · rw [hcollections]
    exact ⟨(Recent.keys_modify _).trans hfronted.keys, hfronted.maxSize⟩
  · rw [hcollections, Recent.get_of_find hf] at he
    obtain ⟨e', he', rfl⟩ := List.mem_map.1 he
    rcases List.mem_append.1 he' with he' | he'
    · obtain ⟨hmem, hne⟩ := Recent.mem_without_iff.1 he'
      rw [hne, if_neg Bool.false_ne_true]
      exact .inl ⟨hmem, hne⟩
    · obtain rfl := List.mem_singleton.1 he'
      rw [if_pos (beq_self_eq_true f)]
      exact .inr rfl

variable [BEq κ]

/-- The store that a call leaves. -/
def Call.next (s : ResultStore κ ν) : Call κ ν → ResultStore κ ν
  | get f k => (s.get f k).2
  | put f k v => (s.put f k v).2
  | clear => s.clear

/-- The store that a history leaves. -/
def after (s : ResultStore κ ν) : History κ ν → ResultStore κ ν
  | [] => s
  | c :: earlier => c.next (s.after earlier)

theorem get_of_held (hf : s.collections.find? f = some r) : (s.get f k).1 = (r.get k).1 ∧
    (s.get f k).2.collections = (s.collections.get f).2.modify f fun _ => (r.get k).2 := by
  rw [Recent.get_of_find hf]
  unfold get
  rw [Recent.get_of_find hf]
  rcases hget : r.get k with ⟨_ | w, r'⟩
  all_goals
    simp only [hget]
    exact ⟨trivial, trivial⟩

/-! ## Stores that are well kept -/

/-- Are the collections, and the results of each of them, told apart and within bounds? -/
structure WellKept (E C : Nat) (s : ResultStore κ ν) : Prop where
  collections : s.collections.WellKept
  places : s.collections.maxSize = C
  bound : readBound .cacheSize s.maxResults = .ok E
  results : ∀ e ∈ s.collections.entries, e.2.WellKept ∧ e.2.maxSize = E

namespace WellKept

/-- A get on a collection that is not there changes no entry; any other is one on the results there. -/
theorem visited_get (hs : s.WellKept E C) (f : Fingerprint) (k : κ) :
    (s.collections.find? f = none ∧ (s.get f k).1 = none ∧
      (s.get f k).2.collections.entries = s.collections.entries ∧
      (s.get f k).2.collections.maxSize = s.collections.maxSize) ∨
    ∃ r, (f, r) ∈ s.collections.entries ∧ (s.get f k).1 = (r.get k).1 ∧
      Visited s (s.get f k).2 f (r.get k).2 := by
  cases hf : s.collections.find? f with
  | none =>
    refine .inl ⟨rfl, ?_⟩
    rw [get, Recent.get_of_not_find hf]
    exact ⟨rfl, rfl, rfl⟩
  | some r =>
    obtain ⟨f', hff, hmem⟩ := Recent.find?_eq_some hf
    obtain rfl := eq_of_beq hff
    obtain ⟨hresult, hcollections⟩ := get_of_held (k := k) hf
    exact .inr ⟨r, hmem, hresult, .of_held hs.collections hf hcollections maxResults_get⟩

/-- A put is one on the results of the collection, which starts with none. -/
theorem visited_put (hs : s.WellKept E C) (f : Fingerprint) (k : κ) (v : ν) :
    ∃ r, ((f, r) ∈ s.collections.entries ∨
        s.collections.find? f = none ∧ r = { maxSize := E, bound := s.maxResults }) ∧
      Visited s (s.put f k v).2 f (r.put k v) := by
  cases hf : s.collections.find? f with
  | none =>
    obtain ⟨r, hr⟩ : ∃ r : Recent κ ν, r = { maxSize := E, bound := s.maxResults } := ⟨_, rfl⟩
    have hmake : Recent.make? s.maxResults = .ok r := by rw [Recent.make?, hs.bound, Outcome.map_ok, hr]
    refine ⟨r, .inr ⟨rfl, hr⟩, ?_, fun e he => ?_, maxResults_put⟩
    · have hfronted := hs.collections.fronted_of_used (c := .put f (r.put k v)) rfl
      rw [put, Recent.get_of_not_find hf, hmake]
      exact ⟨hfronted.keys, hfronted.maxSize⟩
    · rw [put, Recent.get_of_not_find hf, hmake] at he
      exact Recent.mem_put he
  | some r =>
    obtain ⟨f', hff, hmem⟩ := Recent.find?_eq_some hf
    obtain rfl := eq_of_beq hff
    have hcollections : (s.put f k v).2.collections = (s.collections.get f).2.modify f fun r => r.put k v := by
      rw [put, Recent.get_of_find hf]
    exact ⟨r, .inl hmem, .of_held hs.collections hf hcollections maxResults_put⟩

theorem put_results (hs : s.WellKept E C) (hr : (f, r) ∈ s.collections.entries ∨
    s.collections.find? f = none ∧ r = { maxSize := E, bound := s.maxResults }) :
    r.WellKept ∧ r.maxSize = E := by
  rcases hr with hr | ⟨-, rfl⟩
  · exact hs.results _ hr
  · exact ⟨.of_nil rfl, rfl⟩

theorem visited (hs : s.WellKept E C) (hv : Visited s s' f r) (hr : r.WellKept) (hsize : r.maxSize = E) :
    s'.WellKept E C where
  collections := hs.collections.fronted hv.fronted
  places := hv.fronted.maxSize.trans hs.places
  bound := hv.maxResults ▸ hs.bound
  results e he := by
    rcases hv.entries e he with ⟨he, -⟩ | rfl
    · exact hs.results e he
    · exact ⟨hr, hsize⟩

variable [PartialEquivBEq κ]

theorem next (hs : s.WellKept E C) (c : Call κ ν) : (c.next s).WellKept E C := by
  cases c with
  | get f k =>
    rcases hs.visited_get f k with ⟨-, -, hentries, hsize⟩ | ⟨r, hr, -, hv⟩
    · refine ⟨⟨?_, ?_⟩, hsize.trans hs.places, ?_, ?_⟩
      · rw [Call.next, hentries]
        exact hs.collections.apart
      · rw [Call.next, Recent.size, hentries, hsize]
        exact hs.collections.size_le
      · rw [Call.next, maxResults_get]
        exact hs.bound
      · rw [Call.next, hentries]
        exact hs.results
    · obtain ⟨hkept, hsize⟩ := hs.results _ hr
      exact hs.visited hv (hkept.next (.get k)) (Recent.maxSize_get.trans hsize)
  | put f k v =>
    obtain ⟨r, hr, hv⟩ := hs.visited_put f k v
    obtain ⟨hkept, hsize⟩ := hs.put_results hr
    exact hs.visited hv (hkept.next (.put k v)) hsize
  | clear => exact ⟨⟨.nil, Nat.zero_le _⟩, hs.places, hs.bound, fun _ he => absurd he List.not_mem_nil⟩

theorem after (hs : s.WellKept E C) (h : History κ ν) : (s.after h).WellKept E C := by
  induction h with
  | nil => exact hs
  | cons c h ih => exact ih.next c

end WellKept
end ResultStore
end Winnow
