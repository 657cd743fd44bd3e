import Winnow.Proofs.Transport.Canonical
import Winnow.Memo.Key
/-! # What keys separate

The canonical form of the options that a result depends on gives these options back. -/

namespace Winnow

theorem Direction.name_inj {d d' : Direction} (h : d.name = d'.name) : d = d' := by
  cases d <;> cases d' <;> simp_all [Direction.name]

theorem SortKey.toValue_inj {k k' : SortKey}
    (h : Canonical.ofValue k.toValue = Canonical.ofValue k'.toValue) : k = k' := by
  unfold toValue at h
  have hparts := Canonical.ofValue_ofPairs_inj h rfl (by simp)
  simp only [List.map_cons, List.map_nil, List.cons.injEq, and_true] at hparts
  rcases k with ⟨field, direction⟩
  rcases k' with ⟨field', direction'⟩
  rw [show field = field' from Value.text.inj hparts.1,
    show direction = direction' from Direction.name_inj (Value.text.inj hparts.2)]

namespace Options

/-- Do the options agree on all that results depend on? -/
structure Alike (o o' : Options) : Prop where
  caseSensitive : o.caseSensitive = o'.caseSensitive
  maxDepth : o.maxDepth = o'.maxDepth
  orderBy : o.orderBy = o'.orderBy
  limit : o.limit = o'.limit
  customComparator : o.customComparator = o'.customComparator

theorem limitValue_inj {n n' : Option Nat}
    (h : Canonical.ofValue ((n.map fun (n : Nat) => Value.int n).getD .null) =
      Canonical.ofValue ((n'.map fun (n : Nat) => Value.int n).getD .null)) : n = n' := by
  have number_ne_null (n : Nat) : Canonical.ofValue (.int n) ≠ .null := by
    rw [Canonical.ofValue_int]; split <;> exact fun h => Value.noConfusion h
  rcases n with _ | n <;> rcases n' with _ | n'
  · rfl
  · exact absurd h.symm (number_ne_null n')
  · exact absurd h (number_ne_null n)
  · rw [Int.ofNat_inj.1 (Canonical.ofValue_int_inj h)]

theorem comparatorValue_inj {c c' : Option Callable}
    (h : Canonical.ofValue ((c.map Value.callable).getD .null) =
      Canonical.ofValue ((c'.map Value.callable).getD .null)) : c = c' := by
  rcases c with _ | (_ | _) <;> rcases c' with _ | (_ | _) <;>
    simp_all [Canonical.ofValue, Canonical.ofCallable, Canonical.tagged, Callable.name]

theorem affecting_inj {o o' : Options}
    (h : Canonical.ofValue o.affecting = Canonical.ofValue o'.affecting) : o.Alike o' := by
  unfold affecting at h
  have hparts := Canonical.ofValue_ofPairs_inj h rfl (by simp)
  simp only [List.map_cons, List.map_nil, List.cons.injEq, and_true] at hparts
  obtain ⟨hcase, hdepth, horder, hlimit, hcomparator⟩ := hparts
  have horder := Canonical.ofValue_list_inj horder
  rw [List.map_map, List.map_map] at horder
  exact {
    caseSensitive := Value.bool.inj hcase
    maxDepth := Int.ofNat_inj.1 (Canonical.ofValue_int_inj hdepth)
    orderBy := List.map_injective_iff.2 (fun _ _ hk => SortKey.toValue_inj hk) horder
    limit := limitValue_inj hlimit
    customComparator := comparatorValue_inj hcomparator }

/-- Does the encoder have room for the options? It takes texts, lists and numbers up to a size. -/
structure Encodable (o : Options) : Prop where
  sortKeys : o.orderBy.length < 2 ^ 32
  fields : ∀ k ∈ o.orderBy, k.field.utf8ByteSize < 2 ^ 32
  maxDepth : o.maxDepth < 2 ^ 64
  limit : ∀ n, o.limit = some n → n < 2 ^ 64
  customComparator : ∀ c, o.customComparator = some c → c.name.utf8ByteSize < 2 ^ 32

theorem Encodable.fits {o : Options} (h : o.Encodable) : Canonical.Fits o.affecting := by
  have sortKey (k : SortKey) (hk : k ∈ o.orderBy) : Canonical.FitsIn 505 k.toValue := by
    refine Canonical.fitsIn_ofPairs (by simp) (by simp; decide) fun e he => ?_
    simp only [List.mem_cons, List.not_mem_nil, or_false] at he
    rcases he with rfl | rfl
    · exact Canonical.fitsIn_text (h.fields k hk)
    · exact Canonical.fitsIn_text (by cases k.direction <;> decide)
  refine Canonical.fitsIn_ofPairs (by simp) (by simp; decide) fun e he => ?_
  simp only [List.mem_cons, List.not_mem_nil, or_false] at he
  rcases he with rfl | rfl | rfl | rfl | rfl
  · exact ⟨_, rfl⟩
  · exact Canonical.fitsIn_nat h.maxDepth
  · refine Canonical.fitsIn_list (by simpa using h.sortKeys) fun x hx => ?_
    obtain ⟨k, hk, rfl⟩ := List.mem_map.1 hx
    exact sortKey k hk
  · rcases hlimit : o.limit with _ | n
    · exact ⟨_, rfl⟩
    · exact Canonical.fitsIn_nat (h.limit n hlimit)
  · rcases hcomparator : o.customComparator with _ | c
    · exact ⟨_, rfl⟩
    · exact Canonical.fitsIn_callable (h.customComparator c hcomparator)

end Options

namespace ResultKey

theorem beq_iff {a b : ResultKey} :
    (a == b) = true ↔ a.digest = b.digest ∧ ∀ c, c ∈ a.callables ↔ c ∈ b.callables := by
  change (a.digest == b.digest && a.callables.all (b.callables.contains ·) &&
    b.callables.all (a.callables.contains ·)) = true ↔ _
  simp only [Bool.and_eq_true, beq_iff_eq, List.all_eq_true, List.contains_iff_mem, iff_iff_implies_and_implies,
    forall_and, and_assoc]

instance : PartialEquivBEq ResultKey where
  symm h := beq_iff.2 ⟨(beq_iff.1 h).1.symm, fun c => ((beq_iff.1 h).2 c).symm⟩
  trans h h' := beq_iff.2 ⟨(beq_iff.1 h).1.trans (beq_iff.1 h').1, fun c =>
    ((beq_iff.1 h).2 c).trans ((beq_iff.1 h').2 c)⟩

end ResultKey
end Winnow
