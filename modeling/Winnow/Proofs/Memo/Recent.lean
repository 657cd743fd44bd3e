import Mathlib.Data.List.Basic
import Winnow.Proofs.Outcome
import Winnow.Memo.Recent
/-! # What a store of recent entries holds

`Holds P s`: every entry of `s` is one that `P` allows. Reading, changing and dropping entries keep it,
and writing keeps it when `P` allows what is written; so what is read is always allowed. A key that was
just written is found. -/

namespace Winnow

theorem readBound_pos {refusal : Value → Refusal} {v : Value} {n : Nat}
    (h : readBound refusal v = .ok n) : 1 ≤ n := by
  unfold readBound at h
  split at h
  · cases h
  next x _ =>
  split at h
  · cases h
  next hge =>
  obtain rfl := Except.ok.inj h
  cases x with
  | nan => decide
  | infinite negative => cases negative <;> decide
  | finite m e =>
    have hge : ¬ Exact.scaled m e (min e 0) < Exact.scaled 1 0 (min e 0) := by
      rw [← Int.compare_eq_lt]
      exact fun hlt => hge (congrArg some hlt)
    simp only [Exact.truncate?, Option.map_some, Option.getD_some]
    rcases Int.lt_or_le e 0 with he | he
    · rw [Int.min_eq_left (by omega)] at hge
      rw [if_neg (by omega)]
      simp only [Exact.scaled, Int.sub_self, Int.one_mul, Int.zero_sub] at hge
      have hpow : (0 : Int) < Int.pow 2 (-e).toNat := Int.pow_pos (by decide)
      have hone : Int.pow 2 0 = 1 := rfl
      rw [Int.toNat_zero, hone, Int.mul_one, Int.not_lt] at hge
      have hdiv : 1 ≤ m.tdiv (Int.pow 2 (-e).toNat) := by
        rw [Int.tdiv_eq_ediv_of_nonneg (by omega)]
        exact (Int.le_ediv_iff_mul_le hpow).2 (by rwa [Int.one_mul])
      omega
    · rw [Int.min_eq_right he] at hge
      rw [if_pos he]
      simp only [Exact.scaled, Int.sub_zero, Int.one_mul, Int.sub_self] at hge
      have hm : ¬ m * Int.pow 2 e.toNat < 1 := hge
      omega

namespace Recent

variable {κ ν : Type} {s : Recent κ ν} {k : κ} {v : ν} {P : κ → ν → Prop}

/-- Is every entry one that `P` allows? -/
def Holds (P : κ → ν → Prop) (s : Recent κ ν) : Prop := ∀ e ∈ s.entries, P e.1 e.2

theorem make?_maxSize {bound : Value} (h : make? bound = .ok s) : 1 ≤ s.maxSize := by
  obtain ⟨n, hn, rfl⟩ := Outcome.map_eq_ok.1 h
  exact readBound_pos hn

theorem make?_entries {bound : Value} (h : make? bound = .ok s) : s.entries = [] := by
  obtain ⟨n, -, rfl⟩ := Outcome.map_eq_ok.1 h
  rfl

theorem Holds.of_nil (h : s.entries = []) : Holds P s := fun e he => by rw [h] at he; cases he

theorem Holds.clear : Holds P s.clear := fun _ he => nomatch he

variable [BEq κ]

/-- Does `P` treat keys that count as equal alike? -/
def Respects (P : κ → ν → Prop) : Prop := ∀ k k' v, (k == k') = true → P k' v → P k v

theorem respects_of_lawful [LawfulBEq κ] (P : κ → ν → Prop) : Respects P :=
  fun _ _ _ heq h => LawfulBEq.eq_of_beq heq ▸ h

theorem mem_without {entries : List (κ × ν)} {e : κ × ν} (h : e ∈ without entries k) : e ∈ entries :=
  List.mem_of_mem_filter h

theorem find?_eq_some (h : s.find? k = some v) : ∃ k', (k == k') = true ∧ (k', v) ∈ s.entries := by
  unfold find? at h
  generalize s.entries = entries at h
  induction entries with
  | nil => cases h
  | cons e es ih =>
    rcases e with ⟨k', v'⟩
    rw [List.lookup_cons] at h
    split at h
    · obtain rfl := Option.some.inj h
      exact ⟨k', ‹_›, List.mem_cons_self ..⟩
    · obtain ⟨k'', heq, hmem⟩ := ih h
      exact ⟨k'', heq, List.mem_cons_of_mem _ hmem⟩

theorem Holds.find? (hs : Holds P s) (hP : Respects P) (h : s.find? k = some v) : P k v := by
  obtain ⟨k', heq, hmem⟩ := find?_eq_some h
  exact hP k k' v heq (hs _ hmem)

theorem get_fst : (s.get k).1 = s.find? k := by
  unfold get; split <;> simp_all

theorem Holds.get (hs : Holds P s) (hP : Respects P) : Holds P (s.get k).2 := by
  unfold Recent.get
  split
  · next v hv =>
    intro e he
    rcases List.mem_append.1 he with he | he
    · exact hs e (mem_without he)
    · obtain rfl := List.mem_singleton.1 he
      exact hs.find? hP hv
  · exact hs

theorem Holds.put (hs : Holds P s) (h : P k v) : Holds P (s.put k v) := by
  intro e he
  rcases List.mem_append.1 (List.mem_of_mem_drop he) with he | he
  · exact hs e (mem_without he)
  · obtain rfl := List.mem_singleton.1 he
    exact h

theorem Holds.modify (hs : Holds P s) {f : ν → ν}
    (h : ∀ k' v, (k == k') = true → P k' v → P k' (f v)) :
    Holds P (s.modify k f) := by
  intro e he
  obtain ⟨e', he', rfl⟩ := List.mem_map.1 he
  by_cases heq : (k == e'.1) = true
  · rw [if_pos heq]; exact h _ _ heq (hs e' he')
  · rw [if_neg heq]; exact hs e' he'

@[simp] theorem maxSize_get : (s.get k).2.maxSize = s.maxSize := by
  unfold get; split <;> rfl

@[simp] theorem maxSize_put : (s.put k v).maxSize = s.maxSize := rfl

/-- A key is found right after it was written. -/
theorem find?_put [LawfulBEq κ] (hsize : 1 ≤ s.maxSize) : (s.put k v).find? k = some v := by
  have hlast : (s.put k v).entries =
      (without s.entries k).drop ((without s.entries k).length + 1 - s.maxSize) ++ [(k, v)] := by
    show List.drop _ (without s.entries k ++ [(k, v)]) = _
    rw [List.length_append, List.length_singleton, List.drop_append_of_le_length (by omega)]
  rw [Recent.find?, hlast, List.lookup_append, List.lookup_eq_none_iff.2, Option.none_or]
  · simp
  · intro e he
    have hne := List.of_mem_filter (List.mem_of_mem_drop he)
    simpa using hne

end Recent
end Winnow
