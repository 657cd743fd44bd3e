import Mathlib.Data.List.Nodup
import Winnow.Operator.Table
import Winnow.Proofs.Lists
/-! # Operators that are registered

Registering and unregistering keep a table `Kept`: it holds one operator under a key at most, and every operator
that tests values has a rule. So the operator that is looked up under a key is the one that is registered. -/

namespace Winnow.Table

/-- Are names told apart, and has every operator that is not structural a rule? -/
structure Kept (t : Table) : Prop where
  apart : (t.operators.map (·.name)).Nodup
  ready : ∀ o ∈ t.operators, o.structural = false → ∃ r, o.rule = some r

variable {t u : Table} {o p : OperatorInfo} {os : List OperatorInfo}

theorem mem_put (h : p ∈ put o os) : p = o ∨ p ∈ os := by
  induction os with
  | nil => exact .inl (List.mem_singleton.1 h)
  | cons q os ih =>
    unfold put at h
    split at h
    · exact (List.mem_cons.1 h).imp_right (List.mem_cons_of_mem _)
    · rcases List.mem_cons.1 h with rfl | h
      · exact .inr (List.mem_cons_self ..)
      · exact (ih h).imp_right (List.mem_cons_of_mem _)

theorem nodup_put (h : (os.map (·.name)).Nodup) : ((put o os).map (·.name)).Nodup := by
  induction os with
  | nil => exact List.nodup_singleton _
  | cons q os ih =>
    obtain ⟨hq, hos⟩ := List.nodup_cons.1 h
    unfold put
    split
    · next hname =>
      rw [List.map_cons, ← hname]
      exact h
    · next hname =>
      refine List.nodup_cons.2 ⟨fun hmem => ?_, ih hos⟩
      obtain ⟨p, hp, hpq⟩ := List.mem_map.1 hmem
      rcases mem_put hp with rfl | hp
      · exact hname hpq.symm
      · exact hq (hpq ▸ List.mem_map_of_mem hp)

namespace Kept

theorem register {overwrite : Bool} (h : t.Kept) (hu : t.register o overwrite = .ok u) : u.Kept := by
  unfold Table.register at hu
  split at hu
  · cases hu
  split at hu
  · cases hu
  split at hu
  · cases hu
  next hrule =>
  obtain rfl := Except.ok.inj hu
  refine ⟨nodup_put h.apart, fun p hp hstructural => ?_⟩
  rcases mem_put hp with rfl | hp
  · simpa [hstructural, Option.isNone_iff_eq_none, Option.ne_none_iff_exists'] using hrule
  · exact h.ready p hp hstructural

theorem unregister {name : String} (h : t.Kept) (hu : t.unregister name = .ok u) : u.Kept := by
  unfold Table.unregister at hu
  split at hu
  · obtain rfl := Except.ok.inj hu
    refine ⟨(List.filter_sublist.map _).nodup h.apart, fun p hp => ?_⟩
    exact h.ready p (List.mem_filter.1 hp).1
  · cases hu

/-- What is looked up under a key is what is registered under it. -/
theorem find?_eq_some_iff (h : t.Kept) {key : String} : t.find? key = some o ↔ o ∈ t.operators ∧ o.name = key := by
  constructor
  · intro hfind
    exact ⟨List.mem_of_find?_eq_some hfind, by simpa using List.find?_some hfind⟩
  · rintro ⟨ho, rfl⟩
    rcases hfind : t.find? o.name with _ | p
    · have hnone := List.find?_eq_none.1 hfind o ho
      simp at hnone
    · have hname : p.name = o.name := by simpa using List.find?_some hfind
      rw [List.inj_on_of_nodup_map h.apart (List.mem_of_find?_eq_some hfind) ho hname]

end Kept

theorem kept_empty : empty.Kept := ⟨List.nodup_nil, fun _ h => absurd h List.not_mem_nil⟩

theorem kept_builtins : builtins.Kept := by
  refine ⟨by decide +kernel, ?_⟩
  have hready : ∀ o ∈ builtinOperators, o.structural = false → o.rule.isSome = true := by decide +kernel
  exact fun o ho hstructural => Option.isSome_iff_exists.1 (hready o ho hstructural)

end Winnow.Table
