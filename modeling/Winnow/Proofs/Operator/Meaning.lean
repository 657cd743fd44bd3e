import Winnow.Operator.Meaning
import Winnow.Proofs.Time.Now
/-! # How tests fail

A test of a built-in operator fails in one of two ways. It misses when the value or the operand is not of the
kind that the operator reads, and a miss counts as no match. It overflows when it compares a value with a
reading outside the calendar, and that is the end of the evaluation. -/

namespace Winnow

variable {x : Outcome Bool} {overflows : Prop}

/-- Is the outcome an overflow under some condition, and else a result or a miss? -/
def MissesUnless (overflows : Prop) (x : Outcome Bool) : Prop :=
  overflows ∧ x = .error (.fault .overflow) ∨ ¬overflows ∧ ∀ e, x = .error e → e.isMiss = true

theorem missesUnless_ok (h : ¬overflows) (b : Bool) : MissesUnless overflows (.ok b) :=
  .inr ⟨h, fun _ he => nomatch he⟩

theorem missesUnless_error (h : ¬overflows) {e : Failure} (he : e.isMiss = true) :
    MissesUnless overflows (.error e) :=
  .inr ⟨h, fun _ h => by cases h; exact he⟩

namespace Builtin

/-- Does the test of a value compute a reading outside the calendar? Tests of relative time compute the present
on the clock of the value and move it by the duration, a test for what is upcoming only when the value has not
passed. -/
def Overflows (now : Moment) (b : Builtin) (operand : Operand) (actual : Value) : Prop :=
  match actual.moment? with
  | none => False
  | some m =>
    ¬now.Unplaced m ∧
      match b, operand with
      | recent, .span us => now.PresentLeaves m ∨ LeavesCalendar (now.readingFor m - us)
      | upcoming, .span us =>
        now.PresentLeaves m ∨ now.instant ≤ m.instant ∧ LeavesCalendar (now.readingFor m + us)
      | age, .age _ => now.PresentLeaves m
      | _, _ => False

variable (t : Terms) {actual : Value} {m : Moment}

/-- The present on the clock of the value, if the test comes to it. -/
theorem nowFor_cases {now value : Moment} {overflows : Prop} {f : Moment → Outcome Bool}
    (hleaves : now.PresentLeaves value → overflows)
    (hf : ¬now.PresentLeaves value → ∀ n, n.reading = now.readingFor value → n.offset = value.offset →
      MissesUnless overflows (f n)) :
    MissesUnless (¬now.Unplaced value ∧ overflows) (now.nowFor value >>= f) := by
  by_cases hplaced : now.Unplaced value
  · rw [Moment.nowFor_of_unplaced hplaced]
    exact missesUnless_error (fun h => h.1 hplaced) rfl
  simp only [hplaced, not_false_eq_true, true_and]
  by_cases h : now.PresentLeaves value
  · rw [Moment.nowFor_of_leaves hplaced h]
    exact .inl ⟨hleaves h, rfl⟩
  · obtain ⟨n, hn, hreading, hoffset⟩ := Moment.exists_nowFor hplaced h
    rw [hn, Outcome.ok_bind]
    exact hf h n hreading hoffset

/-- A moment moves to another unless the new reading is outside the calendar. -/
theorem add?_cases {n : Moment} {span : Int} {overflows : Prop} {f : Moment → Bool}
    (h : overflows ↔ LeavesCalendar (n.reading + span)) :
    MissesUnless overflows (Failure.ofOverflow (n.add? span) >>= fun m => .ok (f m)) := by
  unfold Moment.add?
  by_cases hleaves : LeavesCalendar (n.reading + span)
  · rw [Moment.ofReading?_eq_none hleaves]
    exact .inl ⟨h.2 hleaves, rfl⟩
  · obtain ⟨m, hm, -⟩ := Moment.exists_ofReading? hleaves n.isOffset
    rw [hm]
    exact missesUnless_ok (mt h.1 hleaves) _

theorem recent_misses (us : Int) (actual : Value) :
    MissesUnless (recent.Overflows t.now (.span us) actual) (withinSpan t true actual us) := by
  unfold withinSpan Overflows
  rcases actual.moment? with _ | m
  · exact missesUnless_ok not_false _
  refine nowFor_cases .inl fun h n hreading _ => add?_cases ?_
  rw [hreading, ← Int.sub_eq_add_neg]
  exact or_iff_right h

theorem upcoming_misses (us : Int) (actual : Value) :
    MissesUnless (upcoming.Overflows t.now (.span us) actual) (withinSpan t false actual us) := by
  unfold withinSpan Overflows
  rcases actual.moment? with _ | m
  · exact missesUnless_ok not_false _
  refine nowFor_cases .inl fun h n hreading hoffset => ?_
  have hpassed : (n.compare m == some .gt) = true ↔ ¬t.now.instant ≤ m.instant := by
    rw [Moment.compare_of_offset_eq hoffset, Moment.instant_of_nowFor hreading hoffset]
    simp [compare_gt_iff_gt]
  simp only [Bool.false_eq_true, if_false, hpassed]
  by_cases hcoming : t.now.instant ≤ m.instant
  · rw [if_neg (not_not.2 hcoming)]
    refine add?_cases ?_
    rw [or_iff_right h, and_iff_right hcoming, hreading]
  · rw [if_pos hcoming]
    exact missesUnless_ok (by simp [h, hcoming]) _

theorem age_misses (range : AgeRange) (actual : Value) :
    MissesUnless (age.Overflows t.now (.age range) actual) (withinAge t actual range) := by
  unfold withinAge Overflows
  have hdate : actual.date?.isSome = actual.moment?.isSome := by cases actual <;> rfl
  rcases hm : actual.moment? with _ | m <;> rcases hd : actual.date? with _ | d
  · exact missesUnless_ok not_false _
  · exact missesUnless_ok not_false _
  · simp [hm, hd] at hdate
  · exact nowFor_cases id fun h _ _ _ => missesUnless_ok h _

theorem coordinate?_misses {v : Value} {e : Failure} (h : Point.coordinate? v = .error e) :
    e.isMiss = true := by
  unfold Point.coordinate? at h
  split at h
  · split at h <;> cases h
    rfl
  all_goals cases h

theorem atPoint_misses {actual : Value} {test : Point → Bool} {e : Failure}
    (h : atPoint actual test = .error e) :
    e.isMiss = true := by
  rcases Outcome.bind_eq_error.1 h with h | ⟨p, -, h⟩
  · rcases Outcome.bind_eq_error.1 h with h | ⟨_ | lat, -, h⟩
    · exact coordinate?_misses h
    · cases h
    rcases Outcome.bind_eq_error.1 h with h | ⟨_ | lng, -, h⟩
    · exact coordinate?_misses h
    · cases h
    · cases h
  · cases h

theorem onTexts_misses {test : List Char → List Char → Bool} {actual : Value} {operand : Operand}
    {e : Failure} (h : onTexts t test actual operand = .error e) : e.isMiss = true := by
  unfold onTexts at h
  split at h
  · rcases Outcome.bind_eq_error.1 h with h | ⟨s, -, h⟩
    · unfold Operand.asText at h
      split at h <;> cases h
      rfl
    · cases h
  · cases h

/-- Only tests of relative time and age compute with the present. -/
theorem not_overflows {now : Moment} {b : Builtin} {operand : Operand} {actual : Value}
    (h : ∀ us range, (b, operand) ≠ (recent, .span us) ∧ (b, operand) ≠ (upcoming, .span us) ∧
      (b, operand) ≠ (age, .age range)) : ¬b.Overflows now operand actual := by
  unfold Overflows
  split
  · exact not_false
  · rintro ⟨-, h'⟩
    split at h'
    · next us => exact (h us ⟨none, none, .days⟩).1 rfl
    · next us => exact (h us ⟨none, none, .days⟩).2.1 rfl
    · next range => exact (h 0 range).2.2 rfl
    · exact h'

/-- A test fails by a miss or, where a reading leaves the calendar, by an overflow. -/
theorem plainTest_misses (b : Builtin) (actual : Value) (operand : Operand) :
    MissesUnless (b.Overflows t.now operand actual) (b.plainTest t actual operand) := by
  cases b with
  | recent =>
    cases operand with
    | span us => exact recent_misses t us actual
    | _ => exact missesUnless_error (not_overflows (by simp)) rfl
  | upcoming =>
    cases operand with
    | span us => exact upcoming_misses t us actual
    | _ => exact missesUnless_error (not_overflows (by simp)) rfl
  | age =>
    cases operand with
    | age range => exact age_misses t range actual
    | _ => exact missesUnless_error (not_overflows (by simp)) rfl
  | eq | ne | contains => exact missesUnless_ok (not_overflows (by simp)) _
  | startsWith | endsWith => exact .inr ⟨not_overflows (by simp), fun _ => onTexts_misses t⟩
  | near | geoBox | geoPolygon =>
    cases operand <;>
      first
        | exact missesUnless_error (not_overflows (by simp)) rfl
        | exact .inr ⟨not_overflows (by simp), fun _ => atPoint_misses⟩
  | _ =>
    cases operand <;>
      first
        | exact missesUnless_error (not_overflows (by simp)) rfl
        | exact missesUnless_ok (not_overflows (by simp)) _

end Builtin
end Winnow
