import Winnow.Proofs.Order.Comparing
/-! # Sorted records

Where the values at the keys are ordered transitively, the keys one after the other order the records, and
sorting keeps records in place that no key tells apart. Null and missing values under the first key are
behind all others in either direction. -/

namespace Winnow

open Std

variable {caseSensitive : Bool} {keys : List SortKey} {records : List Value}

namespace SortKey

/-- Does no key tell the records apart? -/
def ties (caseSensitive : Bool) (keys : List SortKey) (a b : Value) : Bool :=
  keys.all fun k => Value.compareIn k.direction caseSensitive (Path.get a k.field) (Path.get b k.field) == .eq

theorem compareRecords_eq_iff {a b : Value} :
    compareRecords caseSensitive keys a b = .eq ↔ ties caseSensitive keys a b = true := by
  induction keys with
  | nil => simp [compareRecords, ties]
  | cons k ks ih => simp [compareRecords, ties, Ordering.then_eq_eq, ih]

/-- Are the values of the records at every key as programs have them, and ordered transitively? -/
structure Orders (caseSensitive : Bool) (keys : List SortKey) (records : List Value) : Prop where
  proper : ∀ k ∈ keys, ∀ r ∈ records, (Path.get r k.field).Proper
  trans : ∀ k ∈ keys, ∀ a ∈ records, ∀ b ∈ records, ∀ c ∈ records,
    Value.compareIn k.direction caseSensitive (Path.get a k.field) (Path.get b k.field) ≠ .gt →
    Value.compareIn k.direction caseSensitive (Path.get b k.field) (Path.get c k.field) ≠ .gt →
    Value.compareIn k.direction caseSensitive (Path.get a k.field) (Path.get c k.field) ≠ .gt

/-- The keys one after the other are a preorder where each of them is. -/
theorem Orders.transCmp (h : Orders caseSensitive keys records) :
    TransCmp fun a b : { r // r ∈ records } => compareRecords caseSensitive keys a.1 b.1 := by
  induction keys with
  | nil => exact { eq_swap := rfl, isLE_trans := fun _ _ => rfl }
  | cons k ks ih =>
    have hfirst : TransCmp fun a b : { r // r ∈ records } =>
        Value.compareIn k.direction caseSensitive (Path.get a.1 k.field) (Path.get b.1 k.field) := by
      have hk : k ∈ k :: ks := List.mem_cons_self ..
      refine { eq_swap := fun {a b} => ?_, isLE_trans := fun {a b c} hab hbc => ?_ }
      · exact Value.compareIn_swap k.direction (h.proper k hk b b.2) (h.proper k hk a a.2)
      · rw [Ordering.isLE_iff_ne_gt] at *
        exact h.trans k hk a a.2 b b.2 c c.2 hab hbc
    have hrest := ih ⟨fun k' hk' => h.proper k' (List.mem_cons_of_mem _ hk'),
      fun k' hk' => h.trans k' (List.mem_cons_of_mem _ hk')⟩
    exact inferInstanceAs (TransCmp (compareLex _ _))

theorem Orders.subset {items : List Value} (h : Orders caseSensitive keys records) (hsub : items ⊆ records) :
    Orders caseSensitive keys items :=
  ⟨fun k hk r hr => h.proper k hk r (hsub hr),
    fun k hk a ha b hb c hc => h.trans k hk a (hsub ha) b (hsub hb) c (hsub hc)⟩

/-- Scalars, dates and moments are, where no clocks cross. -/
theorem Orders.of_sortable (hsortable : ∀ k ∈ keys, ∀ r ∈ records, (Path.get r k.field).IsSortable)
    (hcross : ∀ k ∈ keys, ∀ x y n : Moment, (∃ r ∈ records, Path.get r k.field = .moment x) →
      (∃ r ∈ records, Path.get r k.field = .moment y) → (∃ r ∈ records, Path.get r k.field = .moment n) →
      ¬x.ClocksCross y n) : Orders caseSensitive keys records := by
  refine ⟨fun k hk r hr => (hsortable k hk r hr).proper, fun k hk a ha b hb c hc => ?_⟩
  have hvalues : ∀ v ∈ { v | ∃ r ∈ records, Path.get r k.field = v }, v.IsSortable := by
    rintro v ⟨r, hr, rfl⟩
    exact hsortable k hk r hr
  have hproper (r : Value) (hr : r ∈ records) := (hsortable k hk r hr).proper
  exact Value.compareIn_trans k.direction (hproper a ha) (hproper b hb) (hproper c hc)
    (Value.comparePresent_trans hvalues (hcross k hk) ⟨a, ha, rfl⟩ ⟨b, hb, rfl⟩ ⟨c, hc, rfl⟩)
    (Value.comparePresent_trans hvalues (hcross k hk) ⟨c, hc, rfl⟩ ⟨b, hb, rfl⟩ ⟨a, ha, rfl⟩)

end SortKey

/-! ## Lists sorted by an order of their items -/

section
variable {cmp : Value → Value → Ordering}

/-- Sorting looks at the items of the list only. -/
theorem mergeSort_eq_map_attach (cmp : Value → Value → Ordering) (records : List Value) :
    records.mergeSort (cmp · · != .gt) =
      (records.attach.mergeSort fun a b => cmp a.1 b.1 != .gt).map Subtype.val := by
  rw [List.map_mergeSort (s := (cmp · · != .gt)) fun _ _ _ _ => rfl, List.attach_map_subtype_val]

variable (hcmp : TransCmp fun a b : { r // r ∈ records } => cmp a.1 b.1)
include hcmp

theorem le_trans_of_transCmp (a b c : { r // r ∈ records }) (hab : (cmp a.1 b.1 != .gt) = true)
    (hbc : (cmp b.1 c.1 != .gt) = true) : (cmp a.1 c.1 != .gt) = true := by
  rw [bne_iff_ne, Ne, ← Ordering.isLE_iff_ne_gt] at *
  exact hcmp.isLE_trans hab hbc

theorem le_total_of_transCmp (a b : { r // r ∈ records }) : (cmp a.1 b.1 != .gt || cmp b.1 a.1 != .gt) = true := by
  have hswap : cmp b.1 a.1 = (cmp a.1 b.1).swap := hcmp.eq_swap
  rw [hswap]
  cases cmp a.1 b.1 <;> rfl

theorem pairwise_mergeSort_of_transCmp : (records.mergeSort (cmp · · != .gt)).Pairwise fun a b => cmp a b ≠ .gt := by
  rw [mergeSort_eq_map_attach, List.pairwise_map]
  have hsorted := List.pairwise_mergeSort (le_trans_of_transCmp hcmp) (le_total_of_transCmp hcmp) records.attach
  exact hsorted.imp bne_iff_ne.1

/-- Items that are in order already stay as they stand to each other. -/
theorem sublist_mergeSort_of_transCmp {items : List Value} (hsub : items.Sublist records)
    (horder : items.Pairwise fun a b => cmp a b ≠ .gt) :
    items.Sublist (records.mergeSort (cmp · · != .gt)) := by
  rw [← List.attach_map_subtype_val records] at hsub
  obtain ⟨attached, hattached, rfl⟩ := List.sublist_map_iff.1 hsub
  rw [mergeSort_eq_map_attach]
  have hle : attached.Pairwise fun a b => (cmp a.1 b.1 != .gt) = true :=
    (List.pairwise_map.1 horder).imp bne_iff_ne.2
  exact (List.sublist_mergeSort (le_trans_of_transCmp hcmp) (le_total_of_transCmp hcmp) hle hattached).map _

/-- Items that are level with one another keep their order. -/
theorem filter_mergeSort_of_transCmp {p : Value → Bool}
    (hlevel : ∀ a ∈ records, ∀ b ∈ records, p a = true → p b = true → cmp a b = .eq) :
    (records.mergeSort (cmp · · != .gt)).filter p = records.filter p := by
  have hperm := List.mergeSort_perm records (cmp · · != .gt)
  have horder : (records.filter p).Pairwise fun a b => cmp a b ≠ .gt := by
    refine List.pairwise_of_forall_mem_list fun a ha b hb => ?_
    obtain ⟨ha, hpa⟩ := List.mem_filter.1 ha
    obtain ⟨hb, hpb⟩ := List.mem_filter.1 hb
    rw [hlevel a ha b hb hpa hpb]
    decide
  have hsub := (sublist_mergeSort_of_transCmp hcmp List.filter_sublist horder).filter p
  simp only [List.filter_filter, Bool.and_self] at hsub
  exact (hsub.eq_of_length (hperm.filter p).length_eq.symm).symm

end

/-! ## The records -/

/-- Are the records in the order of the keys, those that no key tells apart as they were, and those with
nothing under the first key last? -/
structure IsStableSort (k : SortKey) (ks : List SortKey) (caseSensitive : Bool) (records sorted : List Value) :
    Prop where
  perm : sorted.Perm records
  ordered : sorted.Pairwise fun a b => SortKey.compareRecords caseSensitive (k :: ks) a b ≠ .gt
  stable : ∀ r ∈ records, sorted.filter (SortKey.ties caseSensitive (k :: ks) r) =
    records.filter (SortKey.ties caseSensitive (k :: ks) r)
  absentLast : sorted.Pairwise fun a b =>
    (Path.get a k.field).isAbsent = true → (Path.get b k.field).isAbsent = true

theorem sortRecords_perm (keys : List SortKey) (caseSensitive : Bool) (records : List Value) :
    (sortRecords keys caseSensitive records).Perm records := by
  unfold sortRecords
  split
  · exact .refl records
  · exact List.mergeSort_perm ..

theorem sortRecords_pairwise (h : SortKey.Orders caseSensitive keys records) :
    (sortRecords keys caseSensitive records).Pairwise fun a b => SortKey.compareRecords caseSensitive keys a b ≠ .gt := by
  unfold sortRecords
  split
  · next hempty =>
    rw [List.isEmpty_iff.1 hempty]
    exact List.pairwise_of_forall fun _ _ => nofun
  · exact pairwise_mergeSort_of_transCmp h.transCmp

/-- Records that are in order already stay as they are. -/
theorem sortRecords_eq_self
    (h : records.Pairwise fun a b => SortKey.compareRecords caseSensitive keys a b ≠ .gt) :
    sortRecords keys caseSensitive records = records := by
  unfold sortRecords
  split
  · rfl
  · exact List.mergeSort_of_pairwise (h.imp bne_iff_ne.2)

/-- A record with nothing under the first key is behind those with something there. -/
theorem SortKey.absent_of_compareRecords_ne_gt {k : SortKey} {ks : List SortKey} {a b : Value}
    (h : compareRecords caseSensitive (k :: ks) a b ≠ .gt) (ha : (Path.get a k.field).isAbsent = true) :
    (Path.get b k.field).isAbsent = true := by
  by_contra hb
  rw [Bool.not_eq_true] at hb
  refine h ?_
  simp only [compareRecords, Value.compareIn, ha, hb]
  rfl

theorem sortRecords_isStableSort {k : SortKey} {ks : List SortKey} (caseSensitive : Bool) (records : List Value)
    (h : SortKey.Orders caseSensitive (k :: ks) records) :
    IsStableSort k ks caseSensitive records (sortRecords (k :: ks) caseSensitive records) ∧
    ∀ n : Nat, arrange (k :: ks) (some n) caseSensitive records =
      (sortRecords (k :: ks) caseSensitive records).take n := by
  have hcmp := h.transCmp
  have hsorted : sortRecords (k :: ks) caseSensitive records =
      records.mergeSort (SortKey.compareRecords caseSensitive (k :: ks) · · != .gt) := rfl
  have hordered := pairwise_mergeSort_of_transCmp hcmp
  refine ⟨?_, fun n => ?_⟩
  · rw [hsorted]
    refine ⟨List.mergeSort_perm .., hordered, fun r hr => ?_, hordered.imp SortKey.absent_of_compareRecords_ne_gt⟩
    refine filter_mergeSort_of_transCmp hcmp fun a ha b hb hra hrb => ?_
    rw [← SortKey.compareRecords_eq_iff] at hra hrb
    have hback : SortKey.compareRecords caseSensitive (k :: ks) a r = .eq := by
      rw [hcmp.eq_swap (a := ⟨a, ha⟩) (b := ⟨r, hr⟩), hra, Ordering.swap_eq]
    exact hcmp.eq_trans (a := ⟨a, ha⟩) (b := ⟨r, hr⟩) (c := ⟨b, hb⟩) hback hrb
  · rw [arrange, takeUpTo, if_pos (Int.natCast_nonneg n), Int.toNat_natCast]

/-- Records with a number, a text, nothing and a null under one name. -/
def mixedRecords : List Value :=
  [.ofPairs [("f", .int 1), ("g", .int 2)], .ofPairs [("f", .text "b")], .ofPairs [], .ofPairs [("f", .null)],
    .ofPairs [("f", .int 1), ("g", .int 1)]]

theorem orders_mixedRecords : SortKey.Orders false [⟨"f", .descending⟩, ⟨"g", .ascending⟩] mixedRecords := by
  have hf : mixedRecords.map (Path.get · "f") = [.int 1, .text "b", .missing, .null, .int 1] := rfl
  have hg : mixedRecords.map (Path.get · "g") = [.int 2, .missing, .missing, .missing, .int 1] := rfl
  have hvalues (k : SortKey) (hk : k ∈ ([⟨"f", .descending⟩, ⟨"g", .ascending⟩] : List SortKey)) :
      ∀ v ∈ mixedRecords.map (Path.get · k.field), v.IsSortable ∧ ∀ m, v ≠ .moment m := by
    rcases List.mem_pair.1 hk with rfl | rfl
    · simp [hf, Value.IsSortable]
    · simp [hg, Value.IsSortable]
  refine .of_sortable (fun k hk r hr => ?_) fun k hk x _ _ hx => ?_
  · exact (hvalues k hk _ (List.mem_map_of_mem hr)).1
  · obtain ⟨r, hr, hx⟩ := hx
    exact absurd hx ((hvalues k hk _ (List.mem_map_of_mem hr)).2 x)

theorem sortRecords_isStableSort_mixed :
    SortKey.Orders false [⟨"f", .descending⟩, ⟨"g", .ascending⟩] mixedRecords ∧
    IsStableSort ⟨"f", .descending⟩ [⟨"g", .ascending⟩] false mixedRecords
      (sortRecords [⟨"f", .descending⟩, ⟨"g", .ascending⟩] false mixedRecords) :=
  ⟨orders_mixedRecords, (sortRecords_isStableSort false mixedRecords orders_mixedRecords).1⟩

end Winnow
