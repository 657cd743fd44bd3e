import Mathlib.Tactic.Ring
import Winnow.Proofs.Outcome
import Winnow.Proofs.Time.Calendar
import Winnow.Time.Now
/-! # When the present leaves the calendar

Moments are numbered by their readings, in microseconds. A reading is that of a moment exactly when its day
is in the calendar, so moving a moment fails exactly when its new reading is outside. -/

namespace Winnow

/-- Is a reading outside the calendar? -/
def LeavesCalendar (reading : Int) : Prop := reading < wholeDay ∨ (lastOrdinal + 1) * wholeDay ≤ reading

instance (reading : Int) : Decidable (LeavesCalendar reading) := inferInstanceAs (Decidable (_ ∨ _))

/-- A reading is outside the calendar exactly when its day is. -/
theorem leavesCalendar_iff {reading : Int} :
    LeavesCalendar reading ↔ reading / wholeDay < 1 ∨ lastOrdinal < reading / wholeDay := by
  have hday : wholeDay = 86400000000 := rfl
  rw [LeavesCalendar, hday]
  omega

namespace Moment

theorem not_leavesCalendar (m : Moment) : ¬LeavesCalendar m.reading := by
  have hpos := m.date.ordinal_pos
  have hle := m.date.ordinal_le
  have hreading := m.isReading
  simp only [Winnow.isReading, Bool.and_eq_true, decide_eq_true_eq] at hreading
  unfold LeavesCalendar reading
  simp only [wholeDay, Winnow.hour, Winnow.minute, Winnow.second]
  omega

variable {reading : Int} {offset : Option Int}

theorem exists_ofReading? (h : ¬LeavesCalendar reading) (hoffset : offset.all Winnow.isOffset = true) :
    ∃ m, ofReading? reading offset = some m ∧ m.reading = reading ∧ m.offset = offset := by
  rw [leavesCalendar_iff, not_or] at h
  obtain ⟨date, hdate, hordinal⟩ := Date.exists_ofOrdinal? (Int.not_lt.1 h.1) (Int.not_lt.1 h.2)
  have hday : wholeDay = 86400000000 := rfl
  have hrest : (reading % wholeDay).toNat < 86400000000 ∧
      ((reading % wholeDay).toNat : Int) = reading % wholeDay := by
    rw [hday]
    omega
  have hparts : Winnow.isReading ((reading % wholeDay).toNat / 3600000000)
      ((reading % wholeDay).toNat / 60000000 % 60) ((reading % wholeDay).toNat / 1000000 % 60)
      ((reading % wholeDay).toNat % 1000000) = true := by
    simp only [Winnow.isReading, Bool.and_eq_true, decide_eq_true_eq]
    omega
  rw [ofReading?, hdate]
  refine ⟨⟨date, _, _, _, _, offset, hparts, hoffset⟩, dif_pos ⟨hparts, hoffset⟩, ?_, rfl⟩
  rw [Moment.reading]
  simp only [hordinal, Winnow.hour, Winnow.minute, Winnow.second]
  rw [hday] at *
  omega

theorem ofReading?_eq_none (h : LeavesCalendar reading) : ofReading? reading offset = none := by
  rw [ofReading?, Date.ofOrdinal?_eq_none (leavesCalendar_iff.1 h)]

/-! ## Clocks -/

/-- Of two clocks that are both placed or both not, the later one is that of the later instant. -/
theorem compare_of_offset_eq {a b : Moment} (h : a.offset = b.offset) :
    a.compare b = some (Ord.compare a.instant b.instant) := by
  rcases hb : b.offset with _ | offset <;> rw [hb] at h <;> simp [compare, instant, h, hb]

theorem atOffset_eq_ok {m : Moment} {offset : Int} (hoffset : Winnow.isOffset offset = true)
    (h : ¬LeavesCalendar m.instant) (h' : ¬LeavesCalendar (m.instant + offset)) :
    ∃ n, m.atOffset offset = .ok n ∧ n.reading = m.instant + offset ∧ n.offset = some offset := by
  obtain ⟨utc, hutc, hreading, -⟩ := exists_ofReading? h all_isOffset_zero
  rw [← hreading] at h'
  obtain ⟨n, hn, hn', hoff⟩ :=
    exists_ofReading? h' (show (some offset).all Winnow.isOffset = true from hoffset)
  refine ⟨n, ?_, hreading ▸ hn', hoff⟩
  rw [atOffset, hutc, Failure.ofOverflow, Outcome.ok_bind, hn, Failure.ofOverflow]

theorem atOffset_eq_error {m : Moment} {offset : Int}
    (h : LeavesCalendar m.instant ∨ LeavesCalendar (m.instant + offset)) :
    m.atOffset offset = .error (.fault .overflow) := by
  rw [atOffset]
  by_cases hutc : LeavesCalendar m.instant
  · rw [ofReading?_eq_none hutc]
    rfl
  · obtain ⟨utc, heq, hreading, -⟩ := exists_ofReading? hutc all_isOffset_zero
    rw [heq, Failure.ofOverflow, Outcome.ok_bind, hreading, ofReading?_eq_none (h.resolve_left hutc)]
    rfl

/-- The reading of the present on the clock of a value. -/
def readingFor (now value : Moment) : Int := now.instant + value.offset.getD 0

/-- Can the present not be placed in a zone, though the value is? -/
def Unplaced (now value : Moment) : Prop := value.offset.isSome ∧ now.offset = none ∧ now.date.ordinal ≤ 1

/-- Is the present, as an instant or on the clock of the value, outside the calendar? -/
def PresentLeaves (now value : Moment) : Prop :=
  LeavesCalendar now.instant ∨ LeavesCalendar (now.readingFor value)

instance (now value : Moment) : Decidable (now.Unplaced value) := inferInstanceAs (Decidable (_ ∧ _))

instance (now value : Moment) : Decidable (now.PresentLeaves value) := inferInstanceAs (Decidable (_ ∨ _))

variable {now value : Moment}

theorem instant_of_offset_eq_none {m : Moment} (h : m.offset = none) : m.instant = m.reading := by
  simp [instant, h]

theorem placed_eq_ok {m : Moment} (h : m.offset = none) (hlater : ¬m.date.ordinal ≤ 1) :
    ∃ p, m.placed = .ok p ∧ p.instant = m.instant :=
  ⟨{ m with offset := some 0, isOffset := all_isOffset_zero }, if_neg hlater,
    by rw [instant, instant, h]; rfl⟩

theorem nowFor_of_unplaced (h : now.Unplaced value) : now.nowFor value = .error (.fault .badValue) := by
  obtain ⟨hvalue, hnow, hfirst⟩ := h
  obtain ⟨offset, hvalue⟩ := Option.isSome_iff_exists.1 hvalue
  simp only [nowFor, hvalue, hnow, placed, if_pos hfirst, Outcome.error_bind]

theorem nowFor_of_leaves (hplaced : ¬now.Unplaced value) (h : now.PresentLeaves value) :
    now.nowFor value = .error (.fault .overflow) := by
  unfold PresentLeaves readingFor at h
  rcases hvalue : value.offset with _ | offset <;> rcases hnow : now.offset with _ | zone <;> rw [hvalue] at h
  · rw [Option.getD_none, Int.add_zero, or_self, instant_of_offset_eq_none hnow] at h
    exact absurd h now.not_leavesCalendar
  · rw [Option.getD_none] at h
    simp only [nowFor, hvalue, hnow, atOffset_eq_error h, Outcome.error_bind]
  · obtain ⟨p, hp, hinstant⟩ := placed_eq_ok hnow fun hfirst => hplaced ⟨hvalue ▸ rfl, hnow, hfirst⟩
    rw [← hinstant, Option.getD_some] at h
    simp only [nowFor, hvalue, hnow, hp, Outcome.ok_bind, atOffset_eq_error h]
  · rw [Option.getD_some] at h
    simp only [nowFor, hvalue, hnow, atOffset_eq_error h]

theorem exists_nowFor (hplaced : ¬now.Unplaced value) (h : ¬now.PresentLeaves value) :
    ∃ n, now.nowFor value = .ok n ∧ n.reading = now.readingFor value ∧ n.offset = value.offset := by
  have hoffset := value.isOffset
  rw [PresentLeaves, not_or] at h
  obtain ⟨hutc, hlocal⟩ := h
  unfold readingFor at hlocal ⊢
  rcases hvalue : value.offset with _ | offset <;> rcases hnow : now.offset with _ | zone <;>
    rw [hvalue] at hlocal hoffset
  · refine ⟨now, by simp only [nowFor, hvalue, hnow], ?_, hnow⟩
    rw [Option.getD_none, Int.add_zero, instant_of_offset_eq_none hnow]
  · rw [Option.getD_none] at hlocal
    obtain ⟨n, hn, hreading, -⟩ := atOffset_eq_ok all_isOffset_zero hutc hlocal
    refine ⟨{ n with offset := none, isOffset := all_isOffset_none }, ?_, hreading, rfl⟩
    simp only [nowFor, hvalue, hnow, hn, Outcome.ok_bind, Outcome.pure_eq]
  · obtain ⟨p, hp, hinstant⟩ := placed_eq_ok hnow fun hfirst => hplaced ⟨hvalue ▸ rfl, hnow, hfirst⟩
    rw [← hinstant] at hutc hlocal ⊢
    simp only [nowFor, hvalue, hnow, hp, Outcome.ok_bind]
    exact atOffset_eq_ok hoffset hutc hlocal
  · simp only [nowFor, hvalue, hnow]
    exact atOffset_eq_ok hoffset hutc hlocal

/-- The present is the same instant on every clock. -/
theorem instant_of_nowFor {n : Moment} (hreading : n.reading = now.readingFor value)
    (hoffset : n.offset = value.offset) :
    n.instant = now.instant := by
  rw [instant, hreading, readingFor, hoffset, Int.add_sub_cancel]

end Moment
end Winnow
