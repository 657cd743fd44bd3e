import Winnow.Proofs.Memo.Key
import Winnow.Proofs.Memo.ResultHistory
/-! # How long a store keeps a result

`Faithful E C s h` says what a history tells of the store of results that it leaves, when it starts with the
empty store `s`: no more collections and results than its bounds, of each key on each collection the result
that was put last, each result until so many other collections or keys were used as there are places, and
counts that balance.

A result is there as long as its collection is, and as long as its key is in the results of the collection
(`Kept`): the collections in front of this one are among those that were visited since the result was last
used, and the keys in front of its key among those that were used there since. A collection that was dropped
starts anew, but then so many others were visited in between that nothing is said of the results it had. -/

namespace Winnow

/-! ## Keys behind others -/

namespace Recent

variable {κ ν : Type} [BEq κ] {s s' : Recent κ ν} {k j : κ} {others : List κ}

/-- Is the key held, and are the keys in front of it among the others? -/
def Behind (s : Recent κ ν) (k : κ) (others : List κ) : Prop :=
  ∃ ahead, IsAhead k s.keys ahead ∧ ahead.Sublist others

namespace Behind

theorem contains (h : s.Behind k others) : s.contains k = true :=
  contains_iff_isAhead.2 (h.imp fun _ hahead => hahead.1)

theorem congr (h : s.Behind k others) (hkeys : s'.keys = s.keys) : s'.Behind k others := by
  rwa [Behind, hkeys]

/-- A key that was just used is the first one. -/
theorem of_fronted (hj : Fronted s s' j) (hmax : 1 ≤ s.maxSize) (hk : (k == j) = true) : s'.Behind k others :=
  ⟨[], hj.keys ▸ .take ⟨j, _, rfl, hk⟩ hmax, List.nil_sublist _⟩

/-- A key that is not held is not in front of it. -/
theorem missed (h : s.Behind k others) (hj : s.contains j = false) :
    s.Behind k (j :: others.filter fun i => !(j == i)) := by
  obtain ⟨ahead, hahead, hsub⟩ := h
  have hother : ahead.filter (fun i => !(j == i)) = ahead := by
    refine List.filter_eq_self.2 fun i hi => ?_
    rw [Bool.not_eq_true', Bool.eq_false_iff]
    -- a key in front that counts as `j` would be held
    intro hji
    obtain ⟨k', rest, hkeys, -⟩ := hahead
    have hmem : i ∈ s.keys := by
      rw [hkeys]
      exact List.mem_append_left _ hi
    rw [contains_iff_isAhead.2 (IsAhead.exists_iff.2 ⟨i, hmem, hji⟩)] at hj
    cases hj
  refine ⟨ahead, hahead, ?_⟩
  rw [← hother]
  exact (hsub.filter _).cons _

/-- Another key that is used comes in front of it. -/
theorem fronted [PartialEquivBEq κ] (h : s.Behind k others) (hj : Fronted s s' j) (hk : (k == j) = false)
    (hroom : (j :: others.filter fun i => !(j == i)).length < s.maxSize) :
    s'.Behind k (j :: others.filter fun i => !(j == i)) := by
  obtain ⟨ahead, hahead, hsub⟩ := h
  have hmoved := (hsub.filter fun i => !(j == i)).cons_cons j
  refine ⟨_, ?_, hmoved⟩
  rw [hj.keys]
  exact (hahead.moved hk).take (hmoved.length_le.trans_lt hroom)

end Behind
end Recent

namespace ResultStore

/-! ## What a history tells -/

/-- A collection that was put to or read, and for which key. -/
structure Visit (κ : Type) where
  collection : Fingerprint
  key : κ
  /-- Was the result under the key put or hit? -/
  used : Bool

variable {κ ν : Type} [BEq κ]

namespace Call

def isGet : Call κ ν → Bool
  | get .. => true
  | _ => false

def isClear : Call κ ν → Bool
  | clear => true
  | _ => false

def visit? (s : ResultStore κ ν) : Call κ ν → Option (Visit κ)
  | get f k => some ⟨f, k, (s.get f k).1.isSome⟩
  | put f k _ => some ⟨f, k, true⟩
  | clear => none

end Call

namespace History

/-- The result that was put last for a key on a collection, if nothing was cleared since. -/
def latest (f : Fingerprint) (k : κ) : History κ ν → Option ν
  | [] => none
  | .put g j v :: earlier => if f == g && k == j then some v else latest f k earlier
  | .get .. :: earlier => latest f k earlier
  | .clear :: _ => none

/-- How many results were asked for since all were cleared. -/
def gets (h : History κ ν) : Nat := (h.takeWhile fun c => !c.isClear).countP Call.isGet

end History

/-- Was the result for a key on a collection put or hit? -/
def Visit.uses (f : Fingerprint) (k : κ) (v : Visit κ) : Bool := v.used && (f == v.collection && k == v.key)

/-- The visits, the latest first. -/
def visits (s : ResultStore κ ν) : History κ ν → List (Visit κ)
  | [] => []
  | c :: earlier => (c.visit? (s.after earlier)).toList ++ s.visits earlier

/-- The visits since the result for a key on a collection was last put or hit. -/
def visitsSince (s : ResultStore κ ν) (h : History κ ν) (f : Fingerprint) (k : κ) : List (Visit κ) :=
  (s.visits h).takeWhile fun v => !v.uses f k

/-- The other keys that were put or hit on the collection since, each of them once. -/
def otherKeys (s : ResultStore κ ν) (h : History κ ν) (f : Fingerprint) (k : κ) : List κ :=
  (((s.visitsSince h f k).filter fun v => v.used && f == v.collection).map Visit.key).eraseDups

/-- The other collections that were put to or read since, each of them once. -/
def otherCollections (s : ResultStore κ ν) (h : History κ ν) (f : Fingerprint) (k : κ) : List Fingerprint :=
  (((s.visitsSince h f k).filter fun v => !(f == v.collection)).map Visit.collection).eraseDups

/-- What a history that starts with an empty store tells of the store that it leaves, where this has places
for `C` collections and for `E` results on each. -/
structure Faithful (E C : Nat) (s : ResultStore κ ν) (h : History κ ν) : Prop where
  collections_le : (s.after h).collections.size ≤ C
  results_le : ∀ e ∈ (s.after h).collections.entries, e.2.size ≤ E
  /-- A result can always be put. -/
  stored : ∀ f k v, ((s.after h).put f k v).1 = .ok ()
  /-- What is read was put last, since all was cleared. -/
  value : ∀ f k v, ((s.after h).get f k).1 = some v → h.latest f k = some v
  /-- It is read before as many others as there are places were used. -/
  kept : ∀ f k v, h.latest f k = some v → (s.otherKeys h f k).length < E →
    (s.otherCollections h f k).length < C → ((s.after h).get f k).1 = some v
  reads : (s.after h).hits + (s.after h).misses = h.gets

variable {s s' : ResultStore κ ν} {f g : Fingerprint} {k j : κ} {v : ν} {r r' : Recent κ ν} {E C : Nat}
  {h : History κ ν} {fs : List Fingerprint} {ks : List κ}

/-! ## Results behind others -/

/-- Is the collection there, behind none but the given ones, and the key in its results, behind none but the
given ones? -/
structure Kept (s : ResultStore κ ν) (f : Fingerprint) (k : κ) (fs : List Fingerprint) (ks : List κ) : Prop where
  collection : s.collections.Behind f fs
  result : ∃ r, (f, r) ∈ s.collections.entries ∧ r.Behind k ks

namespace Kept

theorem congr (hk : s.Kept f k fs ks) (hentries : s'.collections.entries = s.collections.entries) :
    s'.Kept f k fs ks := by
  refine ⟨hk.collection.congr ?_, ?_⟩
  · rw [Recent.keys, hentries, Recent.keys]
  · rw [hentries]
    exact hk.result

theorem get_isSome (hk : s.Kept f k fs ks) (hs : s.WellKept E C) : ((s.get f k).1).isSome = true := by
  obtain ⟨r, hr, hbehind⟩ := hk.result
  have hfind := hs.collections.apart.find?_eq_some_iff.2 ⟨f, BEq.rfl, hr⟩
  rw [(get_of_held hfind).1, Recent.get_fst]
  exact hbehind.contains

/-- The collection itself was visited. -/
theorem of_visited (hv : Visited s s' f r) (hmax : 1 ≤ s.collections.maxSize) (hr : r.Behind k ks) :
    s'.Kept f k fs ks := by
  have hcollection : s'.collections.Behind f fs := .of_fronted hv.fronted hmax BEq.rfl
  refine ⟨hcollection, r, ?_, hr⟩
  obtain ⟨e, he, hf⟩ := Recent.contains_iff.1 hcollection.contains
  rcases hv.entries e he with ⟨-, hne⟩ | rfl
  · rw [hf] at hne
    cases hne
  · exact he

/-- Another collection was visited. -/
theorem visited (hk : s.Kept f k fs ks) (hs : s.WellKept E C) (hv : Visited s s' g r) (hne : (f == g) = false)
    (hroom : (g :: fs.filter fun f' => !(g == f')).length < C) :
    s'.Kept f k (g :: fs.filter fun f' => !(g == f')) ks := by
  have hcollection := hk.collection.fronted hv.fronted hne (hs.places.symm ▸ hroom)
  obtain ⟨r₀, hr₀, hbehind⟩ := hk.result
  refine ⟨hcollection, r₀, ?_, hbehind⟩
  obtain ⟨⟨f', r'⟩, he, hf⟩ := Recent.contains_iff.1 hcollection.contains
  obtain rfl : f = f' := eq_of_beq hf
  rcases hv.entries _ he with ⟨hold, -⟩ | heq
  · rwa [hs.collections.unique hr₀ hold]
  · obtain ⟨rfl, -⟩ := Prod.mk.inj heq
    rw [BEq.rfl] at hne
    cases hne

end Kept

/-! ## Others that were used since -/

variable {c : Call κ ν} {v : Visit κ}

theorem Visit.uses_of_other_key (hk : (k == j) = false) : Visit.uses f k ⟨f, j, true⟩ = false := by
  rw [Visit.uses, hk, Bool.and_false, Bool.and_false]

theorem visitsSince_cons (hc : c.visit? (s.after h) = some v) :
    s.visitsSince (c :: h) f k = if v.uses f k then [] else v :: s.visitsSince h f k := by
  rw [visitsSince, visits, hc, Option.toList_some, List.singleton_append, List.takeWhile_cons]
  cases v.uses f k <;> rfl

theorem otherKeys_of_unused (hc : c.visit? (s.after h) = some v) (hv : (v.used && f == v.collection) = false) :
    s.otherKeys (c :: h) f k = s.otherKeys h f k := by
  have huses : v.uses f k = false := by rw [Visit.uses, ← Bool.and_assoc, hv, Bool.false_and]
  rw [otherKeys, visitsSince_cons hc, huses, if_neg Bool.false_ne_true,
    List.filter_cons_of_neg (by rw [hv]; exact Bool.false_ne_true)]
  rfl

theorem otherCollections_of_same (hc : c.visit? (s.after h) = some v) (hv : v.uses f k = false)
    (hf : f = v.collection) : s.otherCollections (c :: h) f k = s.otherCollections h f k := by
  rw [otherCollections, visitsSince_cons hc, hv, if_neg Bool.false_ne_true,
    List.filter_cons_of_neg (by simp [hf])]
  rfl

theorem otherCollections_of_other (hc : c.visit? (s.after h) = some v) (hf : (f == v.collection) = false) :
    s.otherCollections (c :: h) f k =
      v.collection :: (s.otherCollections h f k).filter fun f' => !(v.collection == f') := by
  have huses : v.uses f k = false := by rw [Visit.uses, hf, Bool.false_and, Bool.and_false]
  rw [otherCollections, visitsSince_cons hc, huses, if_neg Bool.false_ne_true,
    List.filter_cons_of_pos (by rw [hf]; rfl), List.map_cons, Recent.eraseDups_cons_filter]
  rfl

theorem otherCollections_le (g : Fingerprint) : (s.otherCollections h f k).length ≤
    (g :: (s.otherCollections h f k).filter fun f' => !(g == f')).length :=
  Recent.length_le_of_apart (Recent.eraseDups_apart _ : (s.otherCollections h f k).Pairwise _) g

theorem otherKeys_of_used [PartialEquivBEq κ] (hc : c.visit? (s.after h) = some ⟨f, j, true⟩) (hk : (k == j) = false) :
    s.otherKeys (c :: h) f k = j :: (s.otherKeys h f k).filter fun i => !(j == i) := by
  rw [otherKeys, visitsSince_cons hc, Visit.uses_of_other_key hk, if_neg Bool.false_ne_true,
    List.filter_cons_of_pos (by simp), List.map_cons, Recent.eraseDups_cons_filter]
  rfl

theorem otherKeys_le [PartialEquivBEq κ] (j : κ) : (s.otherKeys h f k).length ≤
    (j :: (s.otherKeys h f k).filter fun i => !(j == i)).length :=
  Recent.length_le_of_apart (Recent.eraseDups_apart _ : (s.otherKeys h f k).Pairwise _) j

/-! ## Results that are still there -/

/-- Is a result that was put still there, unless as many others were used since as there are places? -/
def Tracked (E C : Nat) (s : ResultStore κ ν) (h : History κ ν) (f : Fingerprint) (k : κ) : Prop :=
  (h.latest f k).isSome = true → (s.otherKeys h f k).length < E → (s.otherCollections h f k).length < C →
    (s.after h).Kept f k (s.otherCollections h f k) (s.otherKeys h f k)

namespace Tracked

/-- A key on the collection was looked for and not found. -/
theorem unused (ht : Tracked E C s h f k) (hs : (s.after h).WellKept E C) (hC : 1 ≤ C)
    (hc : c.visit? (s.after h) = some ⟨f, j, false⟩) (hlatest : History.latest f k (c :: h) = h.latest f k)
    (hr : (f, r) ∈ (s.after h).collections.entries) (hv : Visited (s.after h) (s.after (c :: h)) f r')
    (hkeys : r'.keys = r.keys) : Tracked E C s (c :: h) f k := by
  rw [Tracked, hlatest, otherKeys_of_unused hc rfl, otherCollections_of_same hc rfl rfl]
  intro hput hks hfs
  obtain ⟨r₀, hr₀, hbehind⟩ := (ht hput hks hfs).result
  obtain rfl := hs.collections.unique hr hr₀
  exact .of_visited hv (hs.places.symm ▸ hC) (hbehind.congr hkeys)

/-- Another collection was visited. -/
theorem elsewhere (ht : Tracked E C s h f k) (hs : (s.after h).WellKept E C)
    (hc : c.visit? (s.after h) = some v) (hf : (f == v.collection) = false)
    (hlatest : History.latest f k (c :: h) = h.latest f k)
    (hv : Visited (s.after h) (s.after (c :: h)) v.collection r') : Tracked E C s (c :: h) f k := by
  rw [Tracked, hlatest, otherKeys_of_unused hc (by rw [hf, Bool.and_false]), otherCollections_of_other hc hf]
  intro hput hks hfs
  exact (ht hput hks ((otherCollections_le _).trans_lt hfs)).visited hs hv hf hfs

/-- A collection was looked for and not found. -/
theorem missed (ht : Tracked E C s h f k) (hc : c.visit? (s.after h) = some ⟨g, j, false⟩)
    (hlatest : History.latest f k (c :: h) = h.latest f k) (hg : (s.after h).collections.contains g = false)
    (hentries : (s.after (c :: h)).collections.entries = (s.after h).collections.entries) :
    Tracked E C s (c :: h) f k := by
  rw [Tracked, hlatest, otherKeys_of_unused hc rfl]
  cases hf : f == g with
  | true =>
    rw [otherCollections_of_same hc rfl (eq_of_beq hf)]
    exact fun hput hks hfs => (ht hput hks hfs).congr hentries
  | false =>
    rw [otherCollections_of_other hc hf]
    intro hput hks hfs
    have hkept := ht hput hks ((otherCollections_le g).trans_lt hfs)
    exact Kept.congr ⟨hkept.collection.missed hg, hkept.result⟩ hentries

variable [PartialEquivBEq κ]

/-- A key on the collection was put or hit. -/
theorem used (ht : Tracked E C s h f k) (hs : (s.after h).WellKept E C) (hE : 1 ≤ E) (hC : 1 ≤ C)
    (hc : c.visit? (s.after h) = some ⟨f, j, true⟩)
    (hlatest : (k == j) = false → History.latest f k (c :: h) = h.latest f k)
    (hv : Visited (s.after h) (s.after (c :: h)) f r') (hr : Recent.Fronted r r' j) (hsize : r.maxSize = E)
    (hheld : ∀ r₀, (f, r₀) ∈ (s.after h).collections.entries → r₀ = r) : Tracked E C s (c :: h) f k := by
  intro hput hkeys hcollections
  have hmax : 1 ≤ (s.after h).collections.maxSize := hs.places.symm ▸ hC
  cases hk : k == j with
  | true => exact .of_visited hv hmax (.of_fronted hr (hsize.symm ▸ hE) hk)
  | false =>
    have hothers := otherKeys_of_used hc hk
    have hsame := otherCollections_of_same hc (Visit.uses_of_other_key hk) rfl
    rw [hlatest hk] at hput
    rw [hsame] at hcollections
    rw [hothers] at hkeys ⊢
    -- there was room before, so the results that were asked are those that held the key
    have hbefore := ht hput ((otherKeys_le j).trans_lt hkeys) hcollections
    obtain ⟨r₀, hr₀, hbehind⟩ := hbefore.result
    obtain rfl := hheld r₀ hr₀
    exact .of_visited hv hmax (hbehind.fronted hr hk (hsize.symm ▸ hkeys))

theorem next_get (ht : Tracked E C s h f k) (hs : (s.after h).WellKept E C) (hE : 1 ≤ E) (hC : 1 ≤ C)
    (g : Fingerprint) (j : κ) : Tracked E C s (.get g j :: h) f k := by
  rcases hs.visited_get g j with ⟨hmiss, hresult, hentries, -⟩ | ⟨r, hr, hresult, hv⟩
  · refine ht.missed (g := g) (j := j) ?_ rfl ?_ hentries
    · rw [Call.visit?, hresult]
      rfl
    · rw [Recent.contains, hmiss]
      rfl
  cases hf : f == g with
  | false => exact ht.elsewhere hs rfl hf rfl hv
  | true =>
    obtain rfl := eq_of_beq hf
    cases hfind : r.find? j with
    | none =>
      refine ht.unused (j := j) hs hC ?_ rfl hr hv ?_
      · rw [Call.visit?, hresult, Recent.get_of_not_find hfind]
        rfl
      · rw [Recent.get_of_not_find hfind]
        rfl
    | some w =>
      have hcontains : r.contains j = true := by rw [Recent.contains, hfind]; rfl
      obtain ⟨hkept, hsize⟩ := hs.results _ hr
      refine ht.used hs hE hC ?_ (fun _ => rfl) hv (hkept.fronted_of_used (c := .get j) (if_pos hcontains)) hsize
        fun r₀ hr₀ => hs.collections.unique hr₀ hr
      rw [Call.visit?, hresult, Recent.get_of_find hfind]
      rfl

theorem next_put (ht : Tracked E C s h f k) (hs : (s.after h).WellKept E C) (hE : 1 ≤ E) (hC : 1 ≤ C)
    (g : Fingerprint) (j : κ) (w : ν) : Tracked E C s (.put g j w :: h) f k := by
  obtain ⟨r, hr, hv⟩ := hs.visited_put g j w
  have hlatest (hne : (f == g && k == j) = false) : History.latest f k (.put g j w :: h) = h.latest f k := by
    rw [History.latest, hne, if_neg Bool.false_ne_true]
  cases hf : f == g with
  | false => exact ht.elsewhere hs rfl hf (hlatest (by rw [hf, Bool.false_and])) hv
  | true =>
    obtain rfl := eq_of_beq hf
    obtain ⟨hkept, hsize⟩ := hs.put_results hr
    refine ht.used hs hE hC rfl (fun hk => hlatest (by rw [hk, Bool.and_false])) hv
      (hkept.fronted_of_used (c := .put j w) rfl) hsize fun r₀ hr₀ => ?_
    rcases hr with hr | ⟨hmiss, -⟩
    · exact hs.collections.unique hr₀ hr
    · exact absurd (Recent.find?_eq_none.1 hmiss _ hr₀) (by simp)

theorem after (hs : s.WellKept E C) (hE : 1 ≤ E) (hC : 1 ≤ C) (h : History κ ν) : Tracked E C s h f k := by
  induction h with
  | nil => exact nofun
  | cons c h ih =>
    cases c with
    | get g j => exact ih.next_get (hs.after h) hE hC g j
    | put g j w => exact ih.next_put (hs.after h) hE hC g j w
    | clear => exact nofun

end Tracked

/-! ## Results and counts -/

theorem hits_add_misses_get : (s.get f k).2.hits + (s.get f k).2.misses = s.hits + s.misses + 1 := by
  unfold get
  split
  · rfl
  · simp only
    split
    · exact Nat.add_right_comm ..
    · rfl

theorem hits_add_misses_put {v : ν} : (s.put f k v).2.hits + (s.put f k v).2.misses = s.hits + s.misses := by
  unfold put
  split
  · rfl
  · split <;> rfl

theorem hits_add_misses (hs : s.hits + s.misses = 0) (h : History κ ν) :
    (s.after h).hits + (s.after h).misses = h.gets := by
  induction h with
  | nil => exact hs
  | cons c h ih =>
    cases c with
    | get f k =>
      rw [after, Call.next, hits_add_misses_get, ih, History.gets, History.gets, List.takeWhile_cons_of_pos rfl,
        List.countP_cons_of_pos rfl]
    | put f k v => exact hits_add_misses_put.trans ih
    | clear => rfl

variable [PartialEquivBEq κ]

/-- Under every key stands the result that was put last. -/
theorem holds_latest (hs : s.WellKept E C) (hempty : s.collections.entries = []) (h : History κ ν) :
    Holds (fun f k' v => ∀ k, (k == k') = true → h.latest f k = some v) (s.after h) := by
  induction h with
  | nil => exact Recent.Holds.of_nil hempty
  | cons c h ih =>
    cases c with
    | get g j => exact (ih.get fun f k k' v hk hv i hi => hv i (BEq.trans hi hk)).1
    | put g j v =>
      obtain ⟨r, hr, hv⟩ := (hs.after h).visited_put g j v
      intro e he e' he' k hk
      rw [History.latest]
      rcases hv.entries e he with ⟨hold, hne⟩ | rfl
      · rw [BEq.comm, hne, Bool.false_and, if_neg Bool.false_ne_true]
        exact ih e hold e' he' k hk
      rcases Recent.mem_put he' with ⟨hold, hne⟩ | rfl
      · rw [BEq.congr_left hk, BEq.comm (a := e'.1), hne, Bool.and_false, if_neg Bool.false_ne_true]
        rcases hr with hr | ⟨-, rfl⟩
        · exact ih _ hr e' hold k hk
        · cases hold
      · rw [BEq.rfl, hk]
        rfl
    | clear => exact .clear

theorem latest_of_get {v : ν} (hs : s.WellKept E C) (hempty : s.collections.entries = []) (h : History κ ν)
    (hv : ((s.after h).get f k).1 = some v) : h.latest f k = some v := by
  rcases (hs.after h).visited_get f k with ⟨-, hnone, -⟩ | ⟨r, hr, hresult, -⟩
  · rw [hnone] at hv
    cases hv
  · rw [hresult, Recent.get_fst] at hv
    obtain ⟨k', hk, hmem⟩ := Recent.find?_eq_some hv
    exact holds_latest hs hempty h _ hr _ hmem k hk

/-! ## What a history tells -/

/-- A store of results that was empty, with positive bounds, is as its history tells. -/
theorem after_answers_latest (hE : 1 ≤ E) (hC : 1 ≤ C) : ∃ s : ResultStore κ ν,
    make? (.int E) (.int C) = .ok s ∧ ∀ h : History κ ν, Faithful E C s h := by
  have hmake : (make? (.int E) (.int C) : Outcome (ResultStore κ ν)) =
      .ok { maxResults := .int E, collections := { maxSize := C, bound := .int C } } := by
    rw [make?, Recent.make?_int (by omega), Outcome.map_ok, Int.toNat_natCast]
  refine ⟨_, hmake, fun h => ?_⟩
  generalize hnew : (⟨.int E, { maxSize := C, bound := .int C }, 0, 0⟩ : ResultStore κ ν) = s
  have hempty : s.collections.entries = [] := hnew ▸ rfl
  have hbound : readBound .cacheSize (.int E) = .ok E := by
    rw [readBound_int, if_neg (by omega), Int.toNat_natCast]
  have hs : s.WellKept E C := by
    subst hnew
    exact ⟨.of_nil rfl, rfl, hbound, nofun⟩
  have hkept := hs.after h
  refine ⟨?_, fun e he => ?_, fun f k v => put_ok hkept.bound, fun f k v => latest_of_get hs hempty h,
    fun f k v hput hks hfs => ?_, hits_add_misses (hnew ▸ rfl) h⟩
  · exact hkept.places ▸ hkept.collections.size_le
  · obtain ⟨hr, hsize⟩ := hkept.results e he
    exact hsize ▸ hr.size_le
  · have htracked : Tracked E C s h f k := .after hs hE hC h
    obtain ⟨w, hw⟩ := Option.isSome_iff_exists.1
      ((htracked (by rw [hput]; rfl) hks hfs).get_isSome hkept)
    rw [hw, ← hput, latest_of_get hs hempty h hw]

/-- Results for two keys on one collection, one of them without records, and for one key on another; the
first key is read between the others. -/
def twoCollections : History ResultKey (List Value) :=
  [.get ⟨7, 2⟩ ⟨"b", []⟩, .put ⟨9, 1⟩ ⟨"a", []⟩ [.int 1], .get ⟨7, 2⟩ ⟨"a", []⟩,
    .put ⟨7, 2⟩ ⟨"b", []⟩ [.null], .put ⟨7, 2⟩ ⟨"a", []⟩ []]

/-- With a place for one result and for two collections, the second result of the first collection takes the
place of the one without records; put again, this one is read although another collection was put to. -/
theorem after_answers_latest_one_place : 1 ≤ 1 ∧ 1 ≤ 2 ∧ ∃ s : ResultStore ResultKey (List Value),
    make? (.int 1) (.int 2) = .ok s ∧
    ((s.after twoCollections).get ⟨7, 2⟩ ⟨"b", []⟩).1 = some [.null] ∧
    ((s.after (.put ⟨9, 1⟩ ⟨"b", []⟩ [] :: .put ⟨7, 2⟩ ⟨"a", []⟩ [] :: twoCollections)).get
      ⟨7, 2⟩ ⟨"a", []⟩).1 = some [] ∧
    (s.after twoCollections).hits + (s.after twoCollections).misses = 2 := by
  obtain ⟨s, hs, hall⟩ := after_answers_latest (κ := ResultKey) (ν := List Value) (E := 1) (C := 2)
    (by decide) (by decide)
  have hkept := (hall twoCollections).kept ⟨7, 2⟩ ⟨"b", []⟩ [.null] rfl
  have hagain := (hall (.put ⟨9, 1⟩ ⟨"b", []⟩ [] :: .put ⟨7, 2⟩ ⟨"a", []⟩ [] :: twoCollections)).kept
    ⟨7, 2⟩ ⟨"a", []⟩ [] rfl
  have hreads := (hall twoCollections).reads
  obtain rfl := Except.ok.inj (hs.symm.trans rfl)
  exact ⟨by decide, by decide, _, hs, hkept (by decide) (by decide), hagain (by decide) (by decide), hreads⟩

end ResultStore
end Winnow
