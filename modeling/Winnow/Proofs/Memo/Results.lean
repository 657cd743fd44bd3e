import Winnow.Proofs.Memo.Recent
import Winnow.Memo.Results
/-! # What a store of results holds

`Holds P s`: every kept result is one that `P` allows for its collection and key. Looking up, keeping and
dropping results preserve it, on both levels. -/

namespace Winnow.ResultStore

variable {κ ν : Type} {s : ResultStore κ ν} {f : Fingerprint} {k : κ} {v : ν}
  {P : Fingerprint → κ → ν → Prop}

/-- Is every kept result one that `P` allows? -/
def Holds (P : Fingerprint → κ → ν → Prop) (s : ResultStore κ ν) : Prop :=
  s.collections.Holds fun f results => results.Holds (P f)

theorem make?_holds {maxResults maxCollections : Value} (h : make? maxResults maxCollections = .ok s) :
    s.Holds P ∧ s.maxResults = maxResults := by
  obtain ⟨collections, hc, rfl⟩ := Outcome.map_eq_ok.1 h
  exact ⟨.of_nil (Recent.make?_entries hc), rfl⟩

theorem Holds.clear : Holds P s.clear := Recent.Holds.clear

@[simp] theorem maxResults_clear : s.clear.maxResults = s.maxResults := rfl

variable [BEq κ]

theorem Holds.get (hs : Holds P s) (hP : ∀ f, Recent.Respects (P f)) :
    Holds P (s.get f k).2 ∧ ∀ v, (s.get f k).1 = some v → P f k v := by
  have hcs := Recent.Holds.get (k := f) hs (Recent.respects_of_lawful _)
  unfold ResultStore.get
  split
  · next collections hget =>
    rw [hget] at hcs
    exact ⟨hcs, fun v hv => nomatch hv⟩
  next results collections hget =>
  have hfind := Recent.get_fst (s := s.collections) (k := f)
  rw [hget] at hcs hfind
  have hresults : results.Holds (P f) :=
    Recent.Holds.find? (P := fun f (r : Recent κ ν) => r.Holds (P f)) hs
      (Recent.respects_of_lawful _) hfind.symm
  have hgot := hresults.get (hP f) (k := k)
  have hmodified : (collections.modify f fun _ => (results.get k).2).Holds fun f r => r.Holds (P f) :=
    hcs.modify fun f' _ heq _ => LawfulBEq.eq_of_beq heq ▸ hgot
  simp only
  split
  · next v hv =>
    refine ⟨hmodified, fun w hw => ?_⟩
    rw [Recent.get_fst] at hv
    exact Option.some.inj hw ▸ hresults.find? (hP f) hv
  · exact ⟨hmodified, fun v hv => nomatch hv⟩

theorem Holds.put (hs : Holds P s) (h : P f k v) : Holds P (s.put f k v).2 := by
  have hcs := Recent.Holds.get (k := f) hs (Recent.respects_of_lawful _)
  unfold ResultStore.put
  split
  · next results collections hget =>
    rw [hget] at hcs
    exact hcs.modify fun f' results heq hr => hr.put (LawfulBEq.eq_of_beq heq ▸ h)
  · next collections hget =>
    rw [hget] at hcs
    split
    · next results hmake => exact hcs.put (.put (.of_nil (Recent.make?_entries hmake)) h)
    · exact hcs

/-- A result can be kept when the bound on results is one. -/
theorem put_ok {n : Nat} (h : readBound .cacheSize s.maxResults = .ok n) : (s.put f k v).1 = .ok () := by
  unfold put
  split
  · rfl
  · rw [Recent.make?, h]; rfl

@[simp] theorem maxResults_get : (s.get f k).2.maxResults = s.maxResults := by
  unfold get
  split
  · rfl
  · simp only; split <;> rfl

@[simp] theorem maxResults_put : (s.put f k v).2.maxResults = s.maxResults := by
  unfold put
  split
  · rfl
  · split <;> rfl

end Winnow.ResultStore
