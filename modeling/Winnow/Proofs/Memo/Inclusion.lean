import Winnow.Proofs.Memo.History
import Winnow.Proofs.Value.Symmetry
/-! # A larger store holds what a smaller one holds

Two stores that are asked the same hold different entries, and what only the larger one holds moves there
alone. `Within` says what stays: the entries of the smaller store are entries of the larger one in the same
order, and the larger one holds at most so many more as its bound is larger. So when the larger store drops
its oldest entry, the smaller one is full as well, and if it holds that entry, drops it too. -/

namespace Winnow.Recent

variable {κ ν : Type} {s t : Recent κ ν} {k : κ} {v : ν}

/-- Does a store hold no more than another one, in the same order, with no more hits? -/
structure Within (s t : Recent κ ν) : Prop where
  maxSize : s.maxSize ≤ t.maxSize
  entries : s.entries.Sublist t.entries
  size : t.size + s.maxSize ≤ s.size + t.maxSize
  hits : s.hits ≤ t.hits

/-- From a list at least as many items are filtered out as from a part of it. -/
theorem length_filter_add_le {α : Type} {xs ys : List α} (h : xs.Sublist ys) (p : α → Bool) :
    (ys.filter p).length + xs.length ≤ (xs.filter p).length + ys.length := by
  have hout := h.countP_le (p := fun a => !p a)
  have hxs := List.length_eq_countP_add_countP p (l := xs)
  have hys := List.length_eq_countP_add_countP p (l := ys)
  simp only [Bool.not_eq_true, ← Bool.not_eq_true', Bool.decide_eq_true, List.countP_eq_length_filter] at *
  omega

namespace Within

variable [BEq κ]

theorem length_refreshed (h : Within s t) (k : κ) (v : ν) :
    (refreshed t.entries k v).length + s.maxSize ≤ (refreshed s.entries k v).length + t.maxSize := by
  have hout := length_filter_add_le h.entries fun e => !(k == e.1)
  have hsize := h.size
  simp only [Recent.length_refreshed, without, Recent.size] at *
  omega

theorem refreshed (h : Within s t) (k : κ) (v : ν) :
    (refreshed s.entries k v).Sublist (refreshed t.entries k v) :=
  (h.entries.filter _).append_right _

theorem put (h : Within s t) (k : κ) (v : ν) : Within (s.put k v) (t.put k v) := by
  have hlength := h.length_refreshed k v
  refine ⟨h.maxSize, ?_, ?_, h.hits⟩
  · -- the larger store drops no more entries than the smaller one
    rw [put_entries, put_entries]
    refine ((h.refreshed k v).drop _).trans (List.drop_sublist_drop_left _ ?_)
    omega
  · have hle := (h.refreshed k v).length_le
    have hmax := h.maxSize
    simp only [Recent.size, put_entries, List.length_drop, maxSize_put]
    omega

theorem pop (h : Within s t) (k : κ) : Within (s.pop k).2 (t.pop k).2 := by
  have hout := length_filter_add_le h.entries fun e => !(k == e.1)
  have hsize := h.size
  refine ⟨h.maxSize, h.entries.filter _, ?_, h.hits⟩
  simp only [Recent.pop, Recent.size, without] at *
  omega

omit [BEq κ] in
theorem clear (h : Within s t) : Within s.clear t.clear :=
  ⟨h.maxSize, List.Sublist.refl _, by simpa [Recent.clear, Recent.size] using h.maxSize, h.hits⟩

variable [PartialEquivBEq κ]

/-- What is found in the smaller store is found in the larger one. -/
theorem find?_eq_some (h : Within s t) (ht : Apart t.entries) (hv : s.find? k = some v) : t.find? k = some v := by
  obtain ⟨k', hk, hmem⟩ := Recent.find?_eq_some hv
  exact ht.find?_eq_some_iff.2 ⟨k', hk, h.entries.subset hmem⟩

theorem get (h : Within s t) (ht : WellKept t) (k : κ) : Within (s.get k).2 (t.get k).2 := by
  cases hs : s.find? k with
  | some v =>
    have hfound := h.find?_eq_some ht.apart hs
    rw [get_of_find hs, get_of_find hfound]
    exact ⟨h.maxSize, h.refreshed k v, h.length_refreshed k v, Nat.succ_le_succ h.hits⟩
  | none =>
    rw [get_of_not_find hs]
    cases hfound : t.find? k with
    | none =>
      rw [get_of_not_find hfound]
      exact ⟨h.maxSize, h.entries, h.size, h.hits⟩
    | some v =>
      -- the entry moves in the larger store alone, where the smaller one has none
      have hcontains : t.contains k = true := by rw [contains, hfound]; rfl
      have hlength := ht.apart.length_refreshed (v := v) hcontains
      have hself : without s.entries k = s.entries := without_eq_self (find?_eq_none.1 hs)
      have hsub : s.entries.Sublist (Recent.refreshed t.entries k v) := by
        have hfilter := h.entries.filter fun e => !(k == e.1)
        rw [← hself]
        exact hfilter.trans (List.sublist_append_left ..)
      rw [get_of_find hfound]
      refine ⟨h.maxSize, hsub, ?_, Nat.le_succ_of_le h.hits⟩
      exact (congrArg (· + s.maxSize) hlength).trans_le h.size

theorem next (h : Within s t) (ht : WellKept t) (c : Call κ ν) : Within (c.next s) (c.next t) := by
  cases c with
  | get k => exact h.get ht k
  | put k v => exact h.put k v
  | pop k => exact h.pop k
  | contains _ | values => exact h
  | clear => exact h.clear

theorem after (h : Within s t) (ht : WellKept t) (calls : History κ ν) :
    Within (s.after calls) (t.after calls) := by
  induction calls with
  | nil => exact h
  | cons c calls ih => exact ih.next (ht.after calls) c

end Within

variable [BEq κ] [PartialEquivBEq κ]

/-- Of two empty stores that are asked the same, the one with the larger bound holds, whatever was asked, all
entries of the other one in their order; what is read from the smaller one is read from the larger one, which
has as many hits at least. -/
theorem smaller_in_larger {m n : Int} (hm : 1 ≤ m) (hmn : m ≤ n) : ∃ s t : Recent κ ν,
    make? (.int m) = .ok s ∧ make? (.int n) = .ok t ∧ ∀ calls : History κ ν,
      (s.after calls).entries.Sublist (t.after calls).entries ∧
      (∀ k v, ((s.after calls).get k).1 = some v → ((t.after calls).get k).1 = some v) ∧
      (s.after calls).hits ≤ (t.after calls).hits := by
  refine ⟨_, _, make?_int hm, make?_int (hm.trans hmn), fun calls => ?_⟩
  have hempty : Within (κ := κ) (ν := ν) { maxSize := m.toNat, bound := .int m }
      { maxSize := n.toNat, bound := .int n } := by
    refine ⟨Int.toNat_le_toNat hmn, .slnil, ?_, Nat.le_refl _⟩
    exact Nat.add_le_add_left (Int.toNat_le_toNat hmn) 0
  have hlarger : WellKept ({ maxSize := n.toNat, bound := .int n } : Recent κ ν) := .of_nil rfl
  have hwithin := hempty.after hlarger calls
  refine ⟨hwithin.entries, fun k v hv => ?_, hwithin.hits⟩
  rw [get_fst] at hv ⊢
  exact hwithin.find?_eq_some (hlarger.after calls).apart hv

/-- Two values are put, and the first one is read under an equal key. -/
def putTwo : History Value.Key String :=
  [.get ⟨.int 1, rfl⟩, .put ⟨.text "b", rfl⟩ "second", .put ⟨.bool true, rfl⟩ "first"]

theorem smaller_in_larger_one_two : (1 : Int) ≤ 1 ∧ (1 : Int) ≤ 2 ∧ ∃ s t : Recent Value.Key String,
    make? (.int 1) = .ok s ∧ make? (.int 2) = .ok t ∧ (s.after putTwo).hits = 0 ∧ (t.after putTwo).hits = 1 ∧
      ((s.after putTwo).get ⟨.text "b", rfl⟩).1 = some "second" ∧
      ((t.after putTwo).get ⟨.text "b", rfl⟩).1 = some "second" := by
  obtain ⟨s, t, hs, ht, hall⟩ := smaller_in_larger (κ := Value.Key) (ν := String) (m := 1) (n := 2)
    (by decide) (by decide)
  have hfound := (hall putTwo).2.1 ⟨.text "b", rfl⟩ "second"
  obtain rfl := Except.ok.inj ((make?_int (by decide)).symm.trans hs)
  obtain rfl := Except.ok.inj ((make?_int (by decide)).symm.trans ht)
  exact ⟨by decide, by decide, _, _, hs, ht, by decide, by decide, by decide, hfound (by decide)⟩

end Winnow.Recent
