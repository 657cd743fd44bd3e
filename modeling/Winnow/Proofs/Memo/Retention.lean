import Winnow.Proofs.Memo.History
import Winnow.Proofs.Value.Symmetry
/-! # How long a store keeps an entry

`Faithful s h` says what a history tells of the store that it leaves, when it starts with the empty store `s`:
no more entries than the bound, of each key the value that was put last, each key that was put until so many
others were put or hit as the bound allows entries, and counts that balance.

The main argument is on the entries that are more recent than the one under a key: the keys of these are
among the keys that were put or hit since, in the order of their last use (`Tracked`). An entry that is
dropped has a full store in front of it, hence so many other keys were used since. Without pops the keys are
all that were used since, so a key with that many has no place. -/

namespace Winnow.Recent

variable {κ ν : Type} [BEq κ]

/-! ## What a history tells -/

namespace Call

def isGet : Call κ ν → Bool
  | get _ => true
  | _ => false

/-- The key that a call puts or hits. -/
def used (s : Recent κ ν) : Call κ ν → Option κ
  | put k _ => some k
  | get k => if s.contains k then some k else none
  | _ => none

/-- How many entries a call adds. -/
def added (s : Recent κ ν) : Call κ ν → Nat
  | put k _ => if s.contains k then 0 else 1
  | _ => 0

/-- How many entries a call takes out. -/
def removed (s : Recent κ ν) : Call κ ν → Nat
  | pop k => if s.contains k then 1 else 0
  | clear => s.size
  | _ => 0

end Call

namespace History

/-- The value that was put last under a key. -/
def latest (k : κ) : History κ ν → Option ν
  | [] => none
  | .put j v :: earlier => if k == j then some v else latest k earlier
  | _ :: earlier => latest k earlier

/-- Was the key put, and neither popped nor cleared since? -/
def stands (k : κ) : History κ ν → Bool
  | [] => false
  | .put j _ :: earlier => k == j || stands k earlier
  | .pop j :: earlier => !(k == j) && stands k earlier
  | .clear :: _ => false
  | _ :: earlier => stands k earlier

def PopFree (h : History κ ν) : Prop := ∀ k, Call.pop k ∉ h

omit [BEq κ] in
theorem PopFree.of_cons {c : Call κ ν} {h : History κ ν} (hpop : PopFree (c :: h)) : PopFree h :=
  fun k hk => hpop k (List.mem_cons_of_mem _ hk)

end History

/-- The keys that were put or hit, the latest first. -/
def uses (s : Recent κ ν) : History κ ν → List κ
  | [] => []
  | c :: earlier => (c.used (s.after earlier)).toList ++ s.uses earlier

/-- The other keys that were put or hit since a key was last put or hit, each of them once. -/
def othersSince (s : Recent κ ν) (h : History κ ν) (k : κ) : List κ :=
  ((s.uses h).takeWhile fun j => !(k == j)).eraseDups

/-- How many entries were added by putting a value under a new key. -/
def additions (s : Recent κ ν) : History κ ν → Nat
  | [] => 0
  | c :: earlier => s.additions earlier + c.added (s.after earlier)

/-- How many entries were popped and cleared. -/
def removals (s : Recent κ ν) : History κ ν → Nat
  | [] => 0
  | c :: earlier => s.removals earlier + c.removed (s.after earlier)

/-- What a history that starts with an empty store tells of the store that it leaves. -/
structure Faithful (s : Recent κ ν) (h : History κ ν) : Prop where
  size_le : (s.after h).size ≤ s.maxSize
  /-- What is read was put last. -/
  value : ∀ k v, ((s.after h).get k).1 = some v → h.latest k = some v
  /-- No key is lost before as many others as the store has places were put or hit. -/
  kept : ∀ k, h.stands k = true → (s.othersSince h k).length < s.maxSize → (s.after h).contains k = true
  /-- Without pops, no other key is there. -/
  dropped : h.PopFree → ∀ k, (s.after h).contains k = true →
    h.stands k = true ∧ (s.othersSince h k).length < s.maxSize
  reads : (s.after h).hits + (s.after h).misses = h.countP Call.isGet
  balance : s.additions h = (s.after h).size + (s.after h).evictions + s.removals h

variable {s : Recent κ ν} {k j : κ} {h : History κ ν}

/-! ## Counts -/

theorem hits_add_misses (hs : s.hits + s.misses = 0) (h : History κ ν) :
    (s.after h).hits + (s.after h).misses = h.countP Call.isGet := by
  induction h with
  | nil => exact hs
  | cons c h ih =>
    rw [after]
    cases c with
    | get k =>
      rw [List.countP_cons_of_pos rfl, ← ih, Call.next]
      cases hk : (s.after h).find? k with
      | some v =>
        rw [get_of_find hk]
        exact Nat.add_right_comm ..
      | none => rw [get_of_not_find hk]; rfl
    | _ => exact ih

theorem size_add_evictions_put (j : κ) (v : ν) :
    (s.put j v).size + (s.put j v).evictions = (without s.entries j).length + 1 + s.evictions := by
  have hlength : (refreshed s.entries j v).length = (without s.entries j).length + 1 := length_refreshed
  have hevictions : (s.put j v).evictions = s.evictions + ((refreshed s.entries j v).length - s.maxSize) := rfl
  rw [hevictions, size, put_entries, List.length_drop]
  omega

/-! ## Items in front of a key -/

/-- Are these the items in front of one that counts as `k`? -/
def IsAhead (k : κ) (keys ahead : List κ) : Prop :=
  ∃ k' rest, keys = ahead ++ k' :: rest ∧ (k == k') = true

namespace IsAhead

variable {keys ahead : List κ} {n : Nat} {p : κ → Bool}

theorem exists_iff : (∃ ahead, IsAhead k keys ahead) ↔ ∃ k' ∈ keys, (k == k') = true := by
  constructor
  · rintro ⟨ahead, k', rest, rfl, hk⟩
    exact ⟨k', List.mem_append_right _ (List.mem_cons_self ..), hk⟩
  · rintro ⟨k', hmem, hk⟩
    obtain ⟨ahead, rest, rfl⟩ := List.append_of_mem hmem
    exact ⟨ahead, k', rest, rfl, hk⟩

theorem of_cons (h : IsAhead k (j :: keys) ahead) :
    ahead = [] ∧ (k == j) = true ∨ ∃ ahead', ahead = j :: ahead' ∧ IsAhead k keys ahead' := by
  obtain ⟨k', rest, heq, hk⟩ := h
  cases ahead with
  | nil =>
    obtain ⟨rfl, -⟩ := List.cons.inj heq
    exact .inl ⟨rfl, hk⟩
  | cons i ahead =>
    obtain ⟨rfl, hkeys⟩ := List.cons.inj heq
    exact .inr ⟨ahead, rfl, k', rest, hkeys, hk⟩

theorem cons (h : IsAhead k keys ahead) (j : κ) : IsAhead k (j :: keys) (j :: ahead) := by
  obtain ⟨k', rest, rfl, hk⟩ := h
  exact ⟨k', rest, rfl, hk⟩

theorem of_take (h : IsAhead k (keys.take n) ahead) : IsAhead k keys ahead := by
  obtain ⟨k', rest, heq, hk⟩ := h
  refine ⟨k', rest ++ keys.drop n, ?_, hk⟩
  rw [← List.cons_append, ← List.append_assoc, ← heq, List.take_append_drop]

theorem take (h : IsAhead k keys ahead) (hn : ahead.length < n) : IsAhead k (keys.take n) ahead := by
  obtain ⟨k', rest, rfl, hk⟩ := h
  refine ⟨k', rest.take (n - ahead.length - 1), ?_, hk⟩
  rw [List.take_append, List.take_of_length_le (Nat.le_of_lt hn), List.take_cons (by omega)]

theorem of_filter (h : IsAhead k (keys.filter p) ahead) :
    ∃ ahead', IsAhead k keys ahead' ∧ ahead'.filter p = ahead := by
  obtain ⟨k', rest, heq, hk⟩ := h
  obtain ⟨front, back, rfl, rfl, hback⟩ := List.filter_eq_append_iff.1 heq
  obtain ⟨skipped, rest', rfl, hskipped, -, -⟩ := List.filter_eq_cons_iff.1 hback
  refine ⟨front ++ skipped, ⟨k', rest', (List.append_assoc ..).symm, hk⟩, ?_⟩
  rw [List.filter_append, List.filter_eq_nil_iff.2 hskipped, List.append_nil]

theorem filter (h : IsAhead k keys ahead) (hp : ∀ k', (k == k') = true → p k' = true) :
    IsAhead k (keys.filter p) (ahead.filter p) := by
  obtain ⟨k', rest, rfl, hk⟩ := h
  refine ⟨k', rest.filter p, ?_, hk⟩
  rw [List.filter_append, List.filter_cons_of_pos (hp k' hk)]

end IsAhead

/-- The keys, the most recent first. -/
def keys (s : Recent κ ν) : List κ := (s.entries.map Prod.fst).reverse

theorem contains_iff_isAhead : s.contains k = true ↔ ∃ ahead, IsAhead k s.keys ahead := by
  rw [contains_iff, IsAhead.exists_iff]
  simp [keys]

omit [BEq κ] in
theorem length_keys : s.keys.length = s.size := by
  rw [keys, List.length_reverse, List.length_map, size]

theorem keys_without (es : List (κ × ν)) :
    ((without es j).map Prod.fst).reverse = ((es.map Prod.fst).reverse).filter fun i => !(j == i) := by
  rw [without, List.filter_reverse, List.filter_map]
  rfl

theorem keys_refreshed (es : List (κ × ν)) (v : ν) : ((refreshed es j v).map Prod.fst).reverse =
    j :: ((es.map Prod.fst).reverse).filter fun i => !(j == i) := by
  rw [refreshed, List.map_append, List.reverse_append, keys_without]
  rfl

theorem reverse_drop_length_sub {α : Type} (xs : List α) (n : Nat) :
    (xs.drop (xs.length - n)).reverse = xs.reverse.take n := by
  rw [List.reverse_drop, List.take_eq_take_iff, List.length_reverse]
  omega

theorem keys_put (v : ν) :
    (s.put j v).keys = (j :: s.keys.filter fun i => !(j == i)).take s.maxSize := by
  have hkeys := keys_refreshed (j := j) s.entries v
  have hlength : (refreshed s.entries j v).length = ((refreshed s.entries j v).map Prod.fst).length :=
    (List.length_map _).symm
  rw [keys, put_entries, List.map_drop, hlength, reverse_drop_length_sub, hkeys, keys]

/-! ## Keys that were used -/

/-- A test that does not tell keys apart that count as equal may come before or after dropping repetitions. -/
theorem eraseDups_filter {p : κ → Bool} (hp : ∀ a b, (a == b) = true → p a = p b) (l : List κ) :
    (l.filter p).eraseDups = l.eraseDups.filter p := by
  induction hn : l.length using Nat.strongRecOn generalizing l with
  | ind n ih =>
    cases l with
    | nil => rfl
    | cons a l =>
      have hshort : (l.filter fun b => !b == a).length < n := by
        rw [← hn]
        exact Nat.lt_succ_of_le (List.length_filter_le ..)
      have hrest := ih _ hshort _ rfl
      rw [List.eraseDups_cons]
      by_cases ha : p a = true
      · rw [List.filter_cons_of_pos ha, List.filter_cons_of_pos ha, List.eraseDups_cons, ← hrest,
          List.filter_filter, List.filter_filter]
        simp only [Bool.and_comm]
      · rw [List.filter_cons_of_neg ha, List.filter_cons_of_neg ha, ← hrest, List.filter_filter]
        congr 1
        refine List.filter_congr fun b _ => ?_
        cases hb : p b with
        | false => rfl
        | true =>
          have hne : (b == a) = false := by
            rw [Bool.eq_false_iff]
            intro hba
            exact ha ((hp b a hba).symm.trans hb)
          rw [hne]
          rfl

theorem othersSince_of_unused {c : Call κ ν} (hc : c.used (s.after h) = none) :
    s.othersSince (c :: h) k = s.othersSince h k := by
  rw [othersSince, uses, hc]
  rfl

/-! ## Entries in front of a key -/

/-- Are the keys in front of a key among those that were used since, and were so many used as the bound
allows if it was lost? -/
structure Tracked (s : Recent κ ν) (h : History κ ν) (k : κ) : Prop where
  ahead : ∀ ahead, IsAhead k (s.after h).keys ahead →
    ahead.Sublist (s.othersSince h k) ∧ (h.PopFree → ahead = s.othersSince h k)
  lost : h.stands k = true → (s.after h).contains k = false → s.maxSize ≤ (s.othersSince h k).length
  stands : (s.after h).contains k = true → h.stands k = true

namespace Tracked

theorem of_nil (hs : s.entries = []) (k : κ) : Tracked s [] k := by
  refine ⟨?_, nofun, fun hfound => ?_⟩
  · rintro ahead ⟨k', rest, hnil, -⟩
    exact absurd hnil.symm (by simp [after, keys, hs])
  · obtain ⟨e, he, -⟩ := contains_iff.1 hfound
    rw [after, hs] at he
    cases he

/-- A call that leaves the entries as they are changes nothing. -/
theorem unused {c : Call κ ν} (ht : Tracked s h k) (hc : c.used (s.after h) = none)
    (hentries : (c.next (s.after h)).entries = (s.after h).entries)
    (hstands : History.stands k (c :: h) = h.stands k) : Tracked s (c :: h) k := by
  have hkeys : (s.after (c :: h)).keys = (s.after h).keys := by rw [keys, after, hentries, keys]
  have hothers := othersSince_of_unused (k := k) hc
  have hcontains : (s.after (c :: h)).contains k = (s.after h).contains k := by
    rw [contains, find?, after, hentries, contains, find?]
  refine ⟨?_, ?_, ?_⟩
  · rw [hkeys, hothers]
    exact fun ahead hahead => ⟨(ht.ahead ahead hahead).1, fun hpop =>
      (ht.ahead ahead hahead).2 (hpop.of_cons)⟩
  · rw [hstands, hcontains, hothers]
    exact ht.lost
  · rw [hcontains, hstands]
    exact ht.stands

theorem cleared (h : History κ ν) (k : κ) : Tracked s (.clear :: h) k := by
  refine ⟨?_, nofun, nofun⟩
  rintro ahead ⟨k', rest, hnil, -⟩
  exact absurd hnil.symm (by simp [after, Call.next, Recent.clear, keys])

theorem kept (ht : Tracked s h k) (hstands : h.stands k = true)
    (hothers : (s.othersSince h k).length < s.maxSize) : (s.after h).contains k = true := by
  by_contra hlost
  rw [Bool.not_eq_true] at hlost
  exact absurd (ht.lost hstands hlost) (Nat.not_le.2 hothers)

/-- Without pops the keys in front of one are all that were used since, so there are fewer than places. -/
theorem dropped (ht : Tracked s h k) (hs : WellKept (s.after h)) (hpop : h.PopFree)
    (hfound : (s.after h).contains k = true) : h.stands k = true ∧ (s.othersSince h k).length < s.maxSize := by
  refine ⟨ht.stands hfound, ?_⟩
  obtain ⟨ahead, hahead⟩ := contains_iff_isAhead.1 hfound
  have hothers : ahead = s.othersSince h k := (ht.ahead ahead hahead).2 hpop
  obtain ⟨k', rest, hkeys, -⟩ := hahead
  have hlength := congrArg List.length hkeys
  have hsize := hs.size_le
  rw [length_keys, List.length_append, List.length_cons] at hlength
  rw [maxSize_after] at hsize
  rw [← hothers]
  omega

end Tracked

variable [PartialEquivBEq κ]

theorem eraseDups_cons_filter (a : κ) (l : List κ) :
    (a :: l).eraseDups = a :: l.eraseDups.filter fun b => !(a == b) := by
  have hne (b : κ) : (!(b == a)) = !(a == b) := by rw [BEq.comm]
  simp only [List.eraseDups_cons, hne]
  rw [eraseDups_filter fun b c hbc => by rw [BEq.congr_right hbc]]

theorem othersSince_of_used {c : Call κ ν} (hc : c.used (s.after h) = some j) : s.othersSince (c :: h) k =
    if k == j then [] else j :: (s.othersSince h k).filter fun i => !(j == i) := by
  rw [othersSince, uses, hc, Option.toList_some, List.singleton_append, List.takeWhile_cons]
  cases hk : k == j with
  | true => rfl
  | false => exact eraseDups_cons_filter ..

theorem eraseDups_apart (l : List κ) : l.eraseDups.Pairwise fun i j => (i == j) = false := by
  induction hn : l.length using Nat.strongRecOn generalizing l with
  | ind n ih =>
    cases l with
    | nil => exact .nil
    | cons a l =>
      have hshort : (l.filter fun b => !b == a).length < n := by
        rw [← hn]
        exact Nat.lt_succ_of_le (List.length_filter_le ..)
      have hrest := ih _ hshort _ rfl
      rw [List.eraseDups_cons]
      refine List.pairwise_cons.2 ⟨fun b hb => ?_, hrest⟩
      rw [eraseDups_filter (fun b c hbc => by rw [BEq.congr_left hbc])] at hb
      have hne := (List.mem_filter.1 hb).2
      rwa [Bool.not_eq_true', BEq.comm] at hne

/-- Another key that comes to the front comes in front of it. -/
theorem IsAhead.moved {keys ahead : List κ} (h : IsAhead k keys ahead) (hk : (k == j) = false) :
    IsAhead k (j :: keys.filter fun i => !(j == i)) (j :: ahead.filter fun i => !(j == i)) := by
  refine (h.filter fun k' hk' => ?_).cons j
  rw [← BEq.congr_right hk', BEq.comm, hk, Bool.not_false]

/-- A call that uses a key makes it the first one. -/
theorem keys_of_used {c : Call κ ν} (hs : WellKept s) (hc : c.used s = some j) :
    (c.next s).keys = (j :: s.keys.filter fun i => !(j == i)).take s.maxSize := by
  cases c with
  | put k v =>
    obtain rfl := Option.some.inj hc
    exact keys_put v
  | get k =>
    rw [Call.used] at hc
    split at hc
    · next hcontains =>
      obtain rfl := Option.some.inj hc
      obtain ⟨v, hv⟩ := Option.isSome_iff_exists.1 hcontains
      have hlength := hs.apart.length_refreshed (v := v) hcontains
      have hkeys : (Call.next s (.get k : Call κ ν)).keys = k :: s.keys.filter fun i => !(k == i) := by
        rw [Call.next, get_of_find hv]
        exact keys_refreshed s.entries v
      rw [← hkeys, List.take_of_length_le]
      rw [length_keys, Call.next, get_of_find hv]
      exact hlength.trans_le hs.size_le
    · cases hc
  | _ => cases hc

namespace Tracked

theorem stands_of_used {c : Call κ ν} (ht : Tracked s h k) (hc : c.used (s.after h) = some j) :
    History.stands k (c :: h) = (k == j || h.stands k) := by
  cases c with
  | put k' v =>
    obtain rfl := Option.some.inj hc
    rfl
  | get k' =>
    rw [Call.used] at hc
    split at hc
    · next hcontains =>
      obtain rfl := Option.some.inj hc
      show h.stands k = (k == k' || h.stands k)
      cases hk : k == k' with
      | true =>
        obtain ⟨e, he, hk'⟩ := contains_iff.1 hcontains
        exact ht.stands (contains_iff.2 ⟨e, he, BEq.trans hk hk'⟩)
      | false => rw [Bool.false_or]
    · cases hc
  | _ => cases hc

/-- A key that was just used is the first one. -/
theorem used_same {c : Call κ ν} (ht : Tracked s h k) (hs : WellKept (s.after h)) (hmax : 1 ≤ s.maxSize)
    (hc : c.used (s.after h) = some j) (hk : (k == j) = true) : Tracked s (c :: h) k := by
  have hkeys := keys_of_used hs hc
  have hothers := othersSince_of_used (k := k) hc
  have hstands := ht.stands_of_used hc
  rw [maxSize_after] at hkeys
  rw [hk, if_pos rfl] at hothers
  rw [hk, Bool.true_or] at hstands
  have hfirst : IsAhead k (s.after (c :: h)).keys [] := by
    rw [after, hkeys]
    exact .take ⟨j, _, rfl, hk⟩ hmax
  refine ⟨fun ahead hahead => ?_, fun _ hlost => ?_, fun _ => hstands⟩
  · rw [after, hkeys] at hahead
    have hnil : ahead = [] := by
      rcases hahead.of_take.of_cons with ⟨hnil, -⟩ | ⟨ahead', -, k', rest, hrest, hk'⟩
      · exact hnil
      · -- no other key in the store counts as this one
        have hmem : k' ∈ (s.after h).keys.filter fun i => !(j == i) := by
          rw [hrest]
          exact List.mem_append_right _ (List.mem_cons_self ..)
        have hne := (List.mem_filter.1 hmem).2
        rw [← BEq.congr_left hk, hk'] at hne
        cases hne
    rw [hnil, hothers]
    exact ⟨.slnil, fun _ => rfl⟩
  · rw [contains_iff_isAhead.2 ⟨_, hfirst⟩] at hlost
    cases hlost

/-- Another key that is used comes in front of it; it is lost when there are so many in front. -/
theorem used_other {c : Call κ ν} (ht : Tracked s h k) (hs : WellKept (s.after h))
    (hc : c.used (s.after h) = some j) (hk : (k == j) = false) : Tracked s (c :: h) k := by
  have hkeys := keys_of_used hs hc
  have hothers := othersSince_of_used (k := k) hc
  have hstands := ht.stands_of_used hc
  rw [maxSize_after] at hkeys
  rw [hk, if_neg Bool.false_ne_true] at hothers
  rw [hk, Bool.false_or] at hstands
  have before {ahead : List κ} (hahead : IsAhead k (s.after (c :: h)).keys ahead) :
      ∃ front, IsAhead k (s.after h).keys front ∧ ahead = j :: front.filter fun i => !(j == i) := by
    rw [after, hkeys] at hahead
    rcases hahead.of_take.of_cons with ⟨-, hk'⟩ | ⟨ahead', rfl, hahead'⟩
    · rw [hk] at hk'
      cases hk'
    · obtain ⟨front, hfront, rfl⟩ := hahead'.of_filter
      exact ⟨front, hfront, rfl⟩
  refine ⟨fun ahead hahead => ?_, fun hstand hlost => ?_, fun hfound => ?_⟩
  · obtain ⟨front, hfront, rfl⟩ := before hahead
    obtain ⟨hsub, heq⟩ := ht.ahead front hfront
    rw [hothers]
    exact ⟨(hsub.filter _).cons_cons j, fun hpop => by rw [heq (hpop.of_cons)]⟩
  · rw [hstands] at hstand
    rw [hothers, List.length_cons]
    cases hbefore : (s.after h).contains k with
    | false =>
      have hlength := length_le_of_apart (eraseDups_apart _ : (s.othersSince h k).Pairwise _) j
      exact (ht.lost hstand hbefore).trans hlength
    | true =>
      obtain ⟨front, hfront⟩ := contains_iff_isAhead.1 hbefore
      have hmoved := hfront.moved hk
      have hfull : s.maxSize ≤ (j :: front.filter fun i => !(j == i)).length := by
        by_contra hroom
        have hstill := hmoved.take (Nat.lt_of_not_le hroom)
        rw [← hkeys] at hstill
        have hcontains := contains_iff_isAhead.2 ⟨_, hstill⟩
        rw [← after, hlost] at hcontains
        cases hcontains
      have hlength := ((ht.ahead front hfront).1.filter fun i => !(j == i)).length_le
      exact hfull.trans (Nat.succ_le_succ hlength)
  · obtain ⟨ahead, hahead⟩ := contains_iff_isAhead.1 hfound
    obtain ⟨front, hfront, -⟩ := before hahead
    rw [hstands]
    exact ht.stands (contains_iff_isAhead.2 ⟨front, hfront⟩)

theorem popped (ht : Tracked s h k) (j : κ) : Tracked s (.pop j :: h) k := by
  have hkeys : (s.after (.pop j :: h)).keys = (s.after h).keys.filter fun i => !(j == i) :=
    keys_without (s.after h).entries
  have hothers : s.othersSince (.pop j :: h) k = s.othersSince h k := othersSince_of_unused rfl
  refine ⟨fun ahead hahead => ?_, fun hstand hlost => ?_, fun hfound => ?_⟩
  · rw [hkeys] at hahead
    obtain ⟨front, hfront, rfl⟩ := hahead.of_filter
    rw [hothers]
    exact ⟨List.filter_sublist.trans (ht.ahead front hfront).1, fun hpop =>
      absurd (List.mem_cons_self ..) (hpop j)⟩
  · rw [History.stands, Bool.and_eq_true, Bool.not_eq_true'] at hstand
    rw [after, Call.next, contains_pop, hstand.1, Bool.not_false, Bool.true_and] at hlost
    rw [hothers]
    exact ht.lost hstand.2 hlost
  · rw [after, Call.next, contains_pop, Bool.and_eq_true] at hfound
    rw [History.stands, hfound.1, Bool.true_and]
    exact ht.stands hfound.2

theorem next (ht : Tracked s h k) (hs : WellKept (s.after h)) (hmax : 1 ≤ s.maxSize) (c : Call κ ν) :
    Tracked s (c :: h) k := by
  cases hused : c.used (s.after h) with
  | some j =>
    cases hk : k == j with
    | true => exact ht.used_same hs hmax hused hk
    | false => exact ht.used_other hs hused hk
  | none =>
    cases c with
    | get j =>
      have hmiss : (s.after h).find? j = none := by
        cases hj : (s.after h).find? j with
        | none => rfl
        | some v => simp [Call.used, contains, hj] at hused
      exact ht.unused hused (by rw [Call.next, get_of_not_find hmiss]) rfl
    | put j v => cases hused
    | pop j => exact ht.popped j
    | contains _ | values => exact ht.unused hused rfl rfl
    | clear => exact .cleared h k

theorem after (hs : s.entries = []) (hmax : 1 ≤ s.maxSize) (h : History κ ν) (k : κ) : Tracked s h k := by
  induction h with
  | nil => exact .of_nil hs k
  | cons c h ih => exact ih.next ((WellKept.of_nil hs).after h) hmax c

end Tracked

/-! ## Values -/

/-- Under every key stands the value that was put last. -/
theorem holds_latest (hs : s.entries = []) (h : History κ ν) :
    Holds (fun k' v => ∀ k, (k == k') = true → h.latest k = some v) (s.after h) := by
  induction h with
  | nil => exact .of_nil hs
  | cons c h ih =>
    cases c with
    | get j => exact ih.get fun k k' v hk hv i hi => hv i (BEq.trans hi hk)
    | put j v =>
      intro e he k hk
      rw [History.latest]
      rcases mem_put he with ⟨he, hj⟩ | rfl
      · rw [BEq.congr_left hk, BEq.comm, hj, if_neg Bool.false_ne_true]
        exact ih e he k hk
      · rw [hk, if_pos rfl]
    | pop j => exact fun e he => ih e (mem_without he)
    | contains _ | values => exact ih
    | clear => exact .clear

theorem latest_of_get {v : ν} (hs : s.entries = []) (h : History κ ν) (hv : ((s.after h).get k).1 = some v) :
    h.latest k = some v := by
  rw [get_fst] at hv
  obtain ⟨k', hk, hmem⟩ := find?_eq_some hv
  exact holds_latest hs h _ hmem k hk

/-! ## Balance -/

theorem length_without_add (hs : WellKept s) (j : κ) :
    (without s.entries j).length + (if s.contains j then 1 else 0) = s.size := by
  split
  · next hj => exact Nat.le_antisymm (length_without_lt hj) (hs.apart.length_le j)
  · next hj =>
    have hmiss : ∀ e ∈ s.entries, (j == e.1) = false := fun e he => by
      rw [Bool.eq_false_iff]
      exact fun hk => hj (contains_iff.2 ⟨e, he, hk⟩)
    rw [without_eq_self hmiss, Nat.add_zero, size]

/-- What a call adds is held afterwards or was evicted, and so is what it does not remove. -/
theorem balance_next (hs : WellKept s) (c : Call κ ν) :
    s.size + s.evictions + c.added s = (c.next s).size + (c.next s).evictions + c.removed s := by
  cases c with
  | get j =>
    cases hj : s.find? j with
    | none =>
      rw [Call.next, get_of_not_find hj]
      rfl
    | some v =>
      have hcontains : s.contains j = true := by rw [contains, hj]; rfl
      have hlength := hs.apart.length_refreshed (v := v) hcontains
      rw [Call.next, get_of_find hj]
      exact congrArg (· + s.evictions) hlength.symm
  | put j v =>
    have hj := length_without_add hs j
    have hput := size_add_evictions_put (s := s) j v
    show s.size + s.evictions + (if s.contains j then 0 else 1) = (s.put j v).size + (s.put j v).evictions
    split at hj
    · next hcontains =>
      rw [if_pos hcontains]
      omega
    · next hcontains =>
      rw [if_neg hcontains]
      omega
  | pop j =>
    have hj := length_without_add hs j
    show s.size + s.evictions = (without s.entries j).length + s.evictions + if s.contains j then 1 else 0
    omega
  | contains _ | values => rfl
  | clear =>
    show s.size + s.evictions = 0 + s.evictions + s.size
    omega

theorem balance_after (hs : s.entries = []) (hevictions : s.evictions = 0) (h : History κ ν) :
    s.additions h = (s.after h).size + (s.after h).evictions + s.removals h := by
  induction h with
  | nil => rw [additions, removals, after, size, hs, hevictions, List.length_nil]
  | cons c h ih =>
    have hnext := balance_next ((WellKept.of_nil hs).after h) c
    rw [additions, removals, after]
    omega

/-! ## What a history tells -/

/-- A store that was empty, with a positive bound, is as its history tells. -/
theorem after_faithful {n : Int} (hn : 1 ≤ n) : ∃ s : Recent κ ν, make? (.int n) = .ok s ∧ s.maxSize = n.toNat ∧
    ∀ h : History κ ν, Faithful s h := by
  refine ⟨_, make?_int hn, rfl, fun h => ?_⟩
  generalize hs : ({ maxSize := n.toNat, bound := .int n } : Recent κ ν) = s
  have hempty : s.entries = [] := hs ▸ rfl
  have hreads : s.hits + s.misses = 0 := hs ▸ rfl
  have hevictions : s.evictions = 0 := hs ▸ rfl
  have hmax : 1 ≤ s.maxSize := hs ▸ Int.toNat_le_toNat hn
  have hkept := (WellKept.of_nil hempty).after h
  have htracked (k : κ) : Tracked s h k := .after hempty hmax h k
  refine ⟨maxSize_after h ▸ hkept.size_le, fun k v => latest_of_get hempty h, fun k => (htracked k).kept,
    fun hpop k => (htracked k).dropped hkept hpop, hits_add_misses hreads h, balance_after hempty hevictions h⟩

/-- Of two values that are put in a store with two places, the first one is read again before a third is put. -/
def readAgain : History Value.Key String :=
  [.put ⟨.text "z", rfl⟩ "third", .get ⟨.bool false, rfl⟩, .put ⟨.text "y", rfl⟩ "second", .put ⟨.int 0, rfl⟩ "first"]

theorem after_faithful_two_places : (1 : Int) ≤ 2 ∧ ∃ s : Recent Value.Key String, make? (.int 2) = .ok s ∧
    (s.after readAgain).contains ⟨.int 0, rfl⟩ = true ∧ (s.after readAgain).contains ⟨.text "y", rfl⟩ = false := by
  obtain ⟨s, hs, -, hall⟩ := after_faithful (κ := Value.Key) (ν := String) (n := 2) (by decide)
  have hkept := (hall readAgain).kept ⟨.int 0, rfl⟩ rfl
  have hdropped := (hall readAgain).dropped (fun k hk => by simp [readAgain] at hk) ⟨.text "y", rfl⟩
  obtain rfl := Except.ok.inj ((make?_int (by decide)).symm.trans hs)
  refine ⟨by decide, _, hs, hkept (by decide), ?_⟩
  rw [Bool.eq_false_iff]
  exact fun hfound => absurd (hdropped hfound).2 (by decide)

end Winnow.Recent
