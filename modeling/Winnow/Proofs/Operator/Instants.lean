import Winnow.Proofs.Operator.Meaning
import Winnow.Proofs.Operator.Operand
import Winnow.Proofs.Operator.Standing
/-! # Tests that only look at instants

A moment with an offset stands for an instant, and so does the present. Tests that compare a value with the present
or with an operand look at nothing else of them: an instant passes or fails alike at every offset, and for a clock
at any offset. -/

namespace Winnow

variable {t t' : Terms} {now m m' : Moment} {actual actual' : Value} {us : Int}

/-! ## Moments of one time -/

namespace Moment

/-- Moments with offsets are compared as instants, and so are moments without. -/
theorem compare_eq (m m' : Moment) : m.compare m' =
    if m.offset.isSome = m'.offset.isSome then some (Ord.compare m.instant m'.instant) else none := by
  unfold compare instant
  cases m.offset <;> cases m'.offset <;> simp

theorem compare_congr {other : Moment} (hoffset : m.offset.isSome = m'.offset.isSome)
    (hinstant : m.instant = m'.instant) : m.compare other = m'.compare other := by
  rw [compare_eq, compare_eq, hoffset, hinstant]

/-- A moment later by a span, or earlier, keeps the offset. -/
theorem exists_add? {span : Int} (h : ¬LeavesCalendar (m.reading + span)) :
    ∃ later, m.add? span = some later ∧ later.instant = m.instant + span ∧ later.offset = m.offset := by
  obtain ⟨later, hlater, hreading, hoffset⟩ := exists_ofReading? h m.isOffset
  refine ⟨later, hlater, ?_, hoffset⟩
  rw [instant, hreading, hoffset, instant]
  omega

end Moment

namespace Value

/-- Are the values moments of one instant, both with an offset or both without, or one and the same date? -/
inductive SameTime : Value → Value → Prop
  | moments {m m' : Moment} (hoffset : m.offset.isSome = m'.offset.isSome) (hinstant : m.instant = m'.instant) :
    SameTime (moment m) (moment m')
  | dates (d : Date) : SameTime (date d) (date d)

namespace SameTime

variable (h : SameTime actual actual') {caseSensitive : Bool} (expected : Value)
include h

theorem moment? : ∃ m m', actual.moment? = some m ∧ actual'.moment? = some m' ∧ m.instant = m'.instant := by
  cases h with
  | moments _ hinstant => exact ⟨_, _, rfl, rfl, hinstant⟩
  | dates d => exact ⟨_, _, rfl, rfl, rfl⟩

theorem date?_isSome : actual.date?.isSome = actual'.date?.isSome := by cases h <;> rfl

theorem isArray : actual.isArray = false ∧ actual'.isArray = false := by cases h <;> exact ⟨rfl, rfl⟩

theorem standing? : standing? caseSensitive actual expected = standing? caseSensitive actual' expected := by
  cases h with
  | dates => rfl
  | moments hoffset hinstant =>
    cases expected with
    | moment | date => exact Moment.compare_congr hoffset hinstant
    | _ => rfl

theorem orderedThrough (r : Relation) :
    orderedThrough caseSensitive r expected actual = orderedThrough caseSensitive r expected actual' := by
  rw [orderedThrough_of_not_isArray h.isArray.1, orderedThrough_of_not_isArray h.isArray.2, h.standing?]

theorem matchesThrough :
    actual.matchesThrough caseSensitive expected = actual'.matchesThrough caseSensitive expected := by
  rw [matchesThrough_of_not_isArray h.isArray.1, matchesThrough_of_not_isArray h.isArray.2]
  cases h with
  | dates => rfl
  | moments hoffset hinstant =>
    cases expected with
    | moment e => simp [matchesValue, family, equal, equalAtoms, Moment.sameTime, Moment.compare_congr hoffset hinstant]
    | _ => rfl

end SameTime
end Value

namespace Builtin

/-! ## Windows of time -/

theorem compare_bne_gt (x y : Int) : (some (compare x y) != some .gt) = decide (x ≤ y) := by
  by_cases h : x ≤ y <;> simp [bne, h, compare_gt_iff_gt, Int.not_le.1]

/-- What is recent lies between the present and an instant before it. -/
theorem withinSpan_past (hm : actual.moment? = some m) (hplaced : ¬t.now.Unplaced m)
    (hleaves : ¬(t.now.PresentLeaves m ∨ LeavesCalendar (t.now.readingFor m - us))) :
    withinSpan t true actual us = .ok (decide (t.now.instant - us ≤ m.instant ∧ m.instant ≤ t.now.instant)) := by
  obtain ⟨hpresent, hpast⟩ := not_or.1 hleaves
  obtain ⟨n, hn, hreading, hoffset⟩ := Moment.exists_nowFor hplaced hpresent
  rw [← hreading, Int.sub_eq_add_neg] at hpast
  obtain ⟨earliest, hearliest, hinstant, hoffset'⟩ := Moment.exists_add? hpast
  have hnow := Moment.instant_of_nowFor hreading hoffset
  simp only [withinSpan, hm, hn, hearliest, Outcome.ok_bind, Failure.ofOverflow, Outcome.pure_eq, if_true,
    Moment.compare_of_offset_eq hoffset.symm, Moment.compare_of_offset_eq (hoffset'.trans hoffset), hinstant, hnow,
    compare_bne_gt, Bool.decide_and, Int.sub_eq_add_neg]

/-- What is upcoming lies between the present and an instant after it. -/
theorem withinSpan_coming (hm : actual.moment? = some m) (hplaced : ¬t.now.Unplaced m)
    (hleaves : ¬(t.now.PresentLeaves m ∨ t.now.instant ≤ m.instant ∧ LeavesCalendar (t.now.readingFor m + us))) :
    withinSpan t false actual us = .ok (decide (t.now.instant ≤ m.instant ∧ m.instant ≤ t.now.instant + us)) := by
  obtain ⟨hpresent, hcoming⟩ := not_or.1 hleaves
  obtain ⟨n, hn, hreading, hoffset⟩ := Moment.exists_nowFor hplaced hpresent
  have hnow := Moment.instant_of_nowFor hreading hoffset
  simp only [withinSpan, hm, hn, Outcome.ok_bind, Bool.false_eq_true, if_false, Moment.compare_of_offset_eq hoffset,
    hnow]
  -- the far end of the window is only looked for when the value is not past
  by_cases hle : t.now.instant ≤ m.instant
  · have hlater : ¬LeavesCalendar (n.reading + us) := hreading ▸ fun h => hcoming ⟨hle, h⟩
    obtain ⟨latest, hlatest, hinstant, hoffset'⟩ := Moment.exists_add? hlater
    simp only [hlatest, Failure.ofOverflow, Outcome.ok_bind, Outcome.pure_eq,
      Moment.compare_of_offset_eq (hoffset'.trans hoffset).symm, hinstant, hnow, compare_bne_gt]
    simp [hle, compare_gt_iff_gt, Int.not_lt.2 hle]
  · simp [hle, compare_gt_iff_gt, Int.not_le.1 hle]

/-! ## Tests -/

/-- The tests that compare a value with the present. -/
def presentTests : List Builtin := [recent, upcoming]

/-- The tests that compare a value with an operand. -/
def operandTests : List Builtin := [isBefore, isAfter, gt, gte, lt, lte, eq, ne, isIn, notIn]

/-- Does a test compute a time outside the calendar? Placing the present in a zone looks at the day before it. -/
def LeavesYears (now : Moment) (b : Builtin) (operand : Operand) (actual : Value) : Prop :=
  b.Overflows now operand actual ∨ b ∈ presentTests ∧ ∃ m, actual.moment? = some m ∧ now.Unplaced m

theorem leavesYears_recent (hm : actual.moment? = some m) : recent.LeavesYears now (.span us) actual ↔
    now.Unplaced m ∨ now.PresentLeaves m ∨ LeavesCalendar (now.readingFor m - us) := by
  simp only [LeavesYears, Overflows, hm, presentTests, List.mem_cons, true_or, true_and, Option.some.injEq,
    exists_eq_left']
  tauto

theorem leavesYears_upcoming (hm : actual.moment? = some m) : upcoming.LeavesYears now (.span us) actual ↔
    now.Unplaced m ∨ now.PresentLeaves m ∨ now.instant ≤ m.instant ∧ LeavesCalendar (now.readingFor m + us) := by
  simp only [LeavesYears, Overflows, hm, presentTests, List.mem_cons, true_or, or_true, true_and,
    Option.some.injEq, exists_eq_left']
  tauto

variable {b : Builtin} {operand : Operand}

section

variable (h : actual.SameTime actual')
include h

theorem presentTest_congr (hb : b ∈ presentTests) (hnow : t.now.instant = t'.now.instant)
    (hin : ¬b.LeavesYears t.now (.span us) actual) (hin' : ¬b.LeavesYears t'.now (.span us) actual') :
    ∃ passes, b.plainTest t actual (.span us) = .ok passes ∧ b.plainTest t' actual' (.span us) = .ok passes := by
  obtain ⟨m, m', hm, hm', hinstant⟩ := h.moment?
  simp only [presentTests, List.mem_cons, List.not_mem_nil, or_false] at hb
  rcases hb with rfl | rfl
  · rw [leavesYears_recent hm, not_or] at hin
    rw [leavesYears_recent hm', not_or] at hin'
    refine ⟨_, withinSpan_past hm hin.1 hin.2, ?_⟩
    rw [hnow, hinstant]
    exact withinSpan_past hm' hin'.1 hin'.2
  · rw [leavesYears_upcoming hm, not_or] at hin
    rw [leavesYears_upcoming hm', not_or] at hin'
    refine ⟨_, withinSpan_coming hm hin.1 hin.2, ?_⟩
    rw [hnow, hinstant]
    exact withinSpan_coming hm' hin'.1 hin'.2

theorem operandTest_congr (hb : b ∈ operandTests) (hcase : t.caseSensitive = t'.caseSensitive) :
    b.plainTest t actual operand = b.plainTest t' actual' operand := by
  cases b with
  | eq | ne => simp only [plainTest, hcase, h.matchesThrough]
  | isIn | notIn =>
    cases operand with
    | items vs => simp only [plainTest, isInItems, hcase, h.matchesThrough]
    | _ => rfl
  | gt | gte | lt | lte =>
    cases operand with
    | value v => simp only [plainTest, hcase, h.orderedThrough]
    | _ => rfl
  | isBefore | isAfter =>
    cases operand with
    | value v => simp only [plainTest, dateRelation, hcase, h.date?_isSome, Value.ordered?_getD, h.standing?]
    | _ => rfl
  | _ => simp [operandTests] at hb

end

/-! ## Accepted operands -/

theorem exists_span_of_relativeTime {s : Operand.Site} (hs : s.relativeTime = .ok operand) :
    ∃ us, operand = .span us := by
  obtain ⟨written, path⟩ := s
  cases written with
  | object es =>
    rw [Operand.Site.relativeTime_eq _ rfl] at hs
    split at hs
    · obtain ⟨_, -, hs⟩ := Outcome.bind_eq_ok.1 hs
      cases hs
    obtain ⟨amounts, -, hs⟩ := Outcome.bind_eq_ok.1 hs
    split at hs
    · cases hs
    obtain ⟨us, -, hs⟩ := Outcome.bind_eq_ok.1 hs
    exact ⟨us, (Except.ok.inj hs).symm⟩
  | _ => cases hs

/-- Windows of time are kept as durations. -/
theorem exists_span {written : Value} {path : String} (hb : b ∈ presentTests)
    (hcheck : b.check written path = .ok operand) : ∃ us, operand = .span us := by
  simp only [presentTests, List.mem_cons, List.not_mem_nil, or_false] at hb
  rcases hb with rfl | rfl <;> exact exists_span_of_relativeTime hcheck

theorem presentTest_eq_mismatch (hb : b ∈ presentTests) (hspan : ¬∃ us, operand = .span us) :
    b.plainTest t actual operand = Operand.mismatch := by
  simp only [presentTests, List.mem_cons, List.not_mem_nil, or_false] at hb
  cases operand with
  | span us => exact absurd ⟨us, rfl⟩ hspan
  | _ => rcases hb with rfl | rfl <;> rfl

theorem operandTest_ok {written : Value} {path : String} (hb : b ∈ operandTests)
    (hcheck : b.check written path = .ok operand) : ∃ passes, b.plainTest t actual operand = .ok passes := by
  cases b with
  | eq | ne => exact ⟨_, rfl⟩
  | isIn | notIn =>
    cases written with
    | list | tuple | set =>
      cases hcheck
      exact ⟨_, rfl⟩
    | _ => cases hcheck
  | gt | gte | lt | lte =>
    obtain ⟨rfl, -⟩ := (check_comparison (by simp [comparisons])).1 hcheck
    exact ⟨_, rfl⟩
  | isBefore | isAfter =>
    cases written with
    | date | moment =>
      cases hcheck
      exact ⟨_, rfl⟩
    | _ => cases hcheck
  | _ => simp [operandTests] at hb

theorem test_eq_done (hb : b ∈ presentTests ++ operandTests) :
    b.test t actual operand = .done (b.plainTest t actual operand) := by
  cases b with
  | regex | search => simp [presentTests, operandTests] at hb
  | _ => rfl

/-- A test of time has the same result for two moments of one instant, or for one moment or date without an offset,
and for two clocks that read one instant; with an operand that is accepted it has a result. -/
theorem test_of_same_time (hb : b ∈ presentTests ++ operandTests) (h : actual.SameTime actual')
    (hcase : t.caseSensitive = t'.caseSensitive) (hnow : t.now.instant = t'.now.instant)
    (hin : ¬b.LeavesYears t.now operand actual) (hin' : ¬b.LeavesYears t'.now operand actual') :
    b.test t actual operand = b.test t' actual' operand ∧
      ∀ written path, b.check written path = .ok operand →
        ∃ passes, b.test t actual operand = .done (.ok passes) := by
  rw [test_eq_done hb, test_eq_done hb]
  rcases List.mem_append.1 hb with hb | hb
  · by_cases hspan : ∃ us, operand = .span us
    · obtain ⟨us, rfl⟩ := hspan
      obtain ⟨passes, hpasses, hpasses'⟩ := presentTest_congr h hb hnow hin hin'
      rw [hpasses, hpasses']
      exact ⟨rfl, fun _ _ _ => ⟨passes, rfl⟩⟩
    · refine ⟨by rw [presentTest_eq_mismatch hb hspan, presentTest_eq_mismatch hb hspan], ?_⟩
      exact fun written path hcheck => absurd (exists_span hb hcheck) hspan
  · refine ⟨by rw [operandTest_congr h hb hcase], fun written path hcheck => ?_⟩
    obtain ⟨passes, hpasses⟩ : ∃ passes, b.plainTest t actual operand = .ok passes := operandTest_ok hb hcheck
    exact ⟨passes, by rw [hpasses]⟩

/-- Half past nine in the evening in universal time, two hours east of it and still on the same day. -/
def lateEvening : Moment := ⟨⟨2023, 8, 30, by decide⟩, 23, 30, 0, 0, some (2 * hour), by decide, by decide⟩

/-- The same instant further east, where the next day has begun. -/
def earlyMorning : Moment :=
  ⟨⟨2023, 8, 31, by decide⟩, 3, 0, 0, 0, some (5 * hour + 30 * minute), by decide, by decide⟩

/-- Half an hour later, on a clock without an offset. -/
def soonAfter : Moment := ⟨⟨2023, 8, 30, by decide⟩, 22, 0, 0, 0, none, by decide, all_isOffset_none⟩

/-- And on a clock in the west. -/
def soonAfterWest : Moment := ⟨⟨2023, 8, 30, by decide⟩, 17, 0, 0, 0, some (-5 * hour), by decide, by decide⟩

theorem test_of_same_time_midnight :
    (Value.moment lateEvening).SameTime (.moment earlyMorning) ∧ soonAfter.instant = soonAfterWest.instant ∧
    recent.test ⟨false, none, soonAfter, Functions.standard⟩ (.moment lateEvening) (.span hour) =
      recent.test ⟨false, none, soonAfterWest, Functions.standard⟩ (.moment earlyMorning) (.span hour) ∧
    recent.test ⟨false, none, soonAfter, Functions.standard⟩ (.moment lateEvening) (.span hour) = .done (.ok true) := by
  have hvalues : (Value.moment lateEvening).SameTime (.moment earlyMorning) := .moments rfl (by decide +kernel)
  have hclocks : soonAfter.instant = soonAfterWest.instant := by decide +kernel
  have hin : ¬recent.LeavesYears soonAfter (.span hour) (.moment lateEvening) := by
    rw [leavesYears_recent rfl]
    decide +kernel
  have hin' : ¬recent.LeavesYears soonAfterWest (.span hour) (.moment earlyMorning) := by
    rw [leavesYears_recent rfl]
    decide +kernel
  have htest : recent ∈ presentTests ++ operandTests := by decide
  have hsame := @test_of_same_time ⟨false, none, soonAfter, Functions.standard⟩
    ⟨false, none, soonAfterWest, Functions.standard⟩ _ _ _ _ htest hvalues rfl hclocks hin hin'
  refine ⟨hvalues, hclocks, hsame.1, ?_⟩
  rw [test_eq_done htest, plainTest, withinSpan_past rfl (by decide +kernel) (by decide +kernel)]
  have hwithin : soonAfter.instant - hour ≤ lateEvening.instant ∧ lateEvening.instant ≤ soonAfter.instant := by
    decide +kernel
  rw [decide_eq_true hwithin]

end Builtin
end Winnow
