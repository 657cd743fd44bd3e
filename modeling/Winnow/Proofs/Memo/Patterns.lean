import Winnow.Proofs.Memo.Recent
import Winnow.Memo.Patterns
/-! # What a store of patterns answers

A store is sound when every kept program is what the compiler makes of its source and flags. A sound
store answers as the compiler does and stays sound, so an evaluation has the same outcome whether it
asks the store or the compiler. -/

namespace Winnow.PatternStore

variable {s : PatternStore} {α : Type}

/-- Is every kept program what the compiler makes of its source? -/
def Sound (s : PatternStore) : Prop :=
  s.programs.Holds fun key p => compileSource s.maxLength key.1 key.2 = .ok (.ok p)

theorem make?_sound {maxSize : Value} {maxLength : Int} (h : make? maxSize maxLength = .ok s) :
    s.Sound ∧ s.maxLength = maxLength := by
  obtain ⟨programs, hp, rfl⟩ := Outcome.map_eq_ok.1 h
  exact ⟨.of_nil (Recent.make?_entries hp), rfl⟩

theorem clear_sound : s.clear.Sound := fun _ he => nomatch he

/-- A sound store compiles as the compiler does and stays sound. -/
theorem Sound.compile (h : s.Sound) (source : String) (flags : Int) :
    (s.compile source flags).1 = compileSource s.maxLength source flags ∧
      (s.compile source flags).2.Sound ∧ (s.compile source flags).2.maxLength = s.maxLength := by
  have hget := Recent.Holds.get (k := (source, flags)) h (Recent.respects_of_lawful _)
  have hfind := Recent.get_fst (s := s.programs) (k := (source, flags))
  unfold PatternStore.compile
  split
  · next p programs heq =>
    rw [heq] at hget hfind
    have hp := Recent.Holds.find? h (Recent.respects_of_lawful _) hfind.symm
    exact ⟨hp.symm, hget, rfl⟩
  · next programs heq =>
    rw [heq] at hget
    split
    · next p hp => exact ⟨hp.symm, hget.put hp, rfl⟩
    · next hp => exact ⟨rfl, hget, rfl⟩

theorem Sound.answer (h : s.Sound) (source : String) (flags : Int) :
    (s.answer source flags).1 = compileAnswer s.maxLength source flags ∧
      (s.answer source flags).2.Sound ∧ (s.answer source flags).2.maxLength = s.maxLength := by
  obtain ⟨hout, hsound, hlen⟩ := h.compile source flags
  exact ⟨congrArg (Except.map Except.toOption) hout, hsound, hlen⟩

/-- An evaluation comes to the same with a sound store as with the compiler. -/
theorem Sound.runState (h : s.Sound) (e : Evaluation α) :
    (e.runState PatternStore.answer s).1 = e.run (compileAnswer s.maxLength) ∧
      (e.runState PatternStore.answer s).2.Sound ∧
      (e.runState PatternStore.answer s).2.maxLength = s.maxLength := by
  induction e generalizing s with
  | done r => exact ⟨rfl, h, rfl⟩
  | ask source flags next ih =>
    obtain ⟨hout, hsound, hlen⟩ := h.answer source flags
    rw [Evaluation.runState, Evaluation.run, ← hout]
    revert hout hsound hlen
    rcases s.answer source flags with ⟨_ | p, s'⟩ <;> intro _ hsound hlen
    · exact ⟨rfl, hsound, hlen⟩
    · obtain ⟨hout', hsound', hlen'⟩ := ih p hsound
      have hlen : s'.maxLength = s.maxLength := hlen
      exact ⟨hlen ▸ hout', hsound', hlen'.trans hlen⟩

end Winnow.PatternStore
