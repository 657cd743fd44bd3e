import Winnow.Operator.Meaning
import Winnow.Proofs.Time.WallClock
import Winnow.Proofs.Value.Equality
/-! # Order operators and equality

The order operators ask how a value stands to the operand, if it is ordered against it at all; equality asks
whether they are of one family and equal. The two agree but for a date and its midnight: they stand level for the
order operators, which take a date for its midnight beside a moment, and are of two families for equality. -/

namespace Winnow

namespace Moment

/-- Only the midnight of a date is level with it. -/
theorem compare_midnight_iff {d : Date} {m : Moment} : d.toMoment.compare m = some .eq ↔ m = d.toMoment := by
  constructor
  · intro h
    rcases hoffset : m.offset with _ | offset
    · have hreading : d.toMoment.reading = m.reading := by
        simpa [compare, hoffset, Date.toMoment, midnight] using h
      obtain ⟨hdate, hclock⟩ := reading_eq_iff.1 hreading
      simp only [clock, Date.toMoment, midnight, IsoText.Clock.mk.injEq] at hclock
      obtain ⟨hhour, hminute, hsecond, hmicro⟩ := hclock
      rcases m with ⟨date, hour, minute, second, micro, offset, _, _⟩
      simp only at hoffset hdate hhour hminute hsecond hmicro
      subst hoffset hdate hhour hminute hsecond hmicro
      rfl
    · simp [compare, hoffset, Date.toMoment, midnight] at h
  · rintro rfl
    simp [compare, Date.toMoment, midnight]

theorem compare_eq_iff_midnight {d : Date} {m : Moment} : m.compare d.toMoment = some .eq ↔ m = d.toMoment := by
  have hsame (a b : Moment) : a.compare b = some .eq ↔ a.clockTime = b.clockTime := by
    rw [← sameTime_iff, sameTime, beq_iff_eq]
  rw [← compare_midnight_iff, hsame, hsame, eq_comm]

end Moment

theorem Date.compare_eq_iff {d d' : Date} : d.compare d' = .eq ↔ d = d' := by
  rcases d with ⟨_, _, _, _⟩
  rcases d' with ⟨_, _, _, _⟩
  simp [compare, Ordering.then_eq_eq]

namespace Value

variable {a b : Value} {caseSensitive : Bool} {d : Date} {m : Moment}

/-! ## Standing -/

/-- Is the value of a family whose values are ordered? -/
def IsOrderable : Value → Prop
  | int _ | float _ | text _ | date _ | moment _ => True
  | _ => False

/-- How a value stands to an operand, if it is ordered against it. -/
def standing? (caseSensitive : Bool) : Value → Value → Option Ordering
  | text a, text b => some (compare (foldCase caseSensitive a) (foldCase caseSensitive b))
  | date d, date d' => some (d.compare d')
  | moment m, moment m' => m.compare m'
  | date d, moment m => d.toMoment.compare m
  | moment m, date d => m.compare d.toMoment
  | a, b =>
    if a.family = .number ∧ b.family = .number then
      a.number?.bind fun x => b.number?.bind x.compare
    else none

/-- Is one of the values a date and the other one its midnight? -/
def AtMidnight (a b : Value) : Prop :=
  ∃ d : Date, (a = date d ∧ b = moment d.toMoment) ∨ (a = moment d.toMoment ∧ b = date d)

theorem atMidnight_date_moment : AtMidnight (date d) (moment m) ↔ m = d.toMoment := by
  simp [AtMidnight]

theorem atMidnight_moment_date : AtMidnight (moment m) (date d) ↔ m = d.toMoment := by
  simp [AtMidnight]

/-- The order operators ask for the standing. -/
theorem ordered?_getD (r : Relation) :
    (ordered? caseSensitive r a b).getD false = (standing? caseSensitive a b).any r.holds := by
  have hmoments (m m' : Moment) : ((m.compare m').map r.holds).getD false = (m.compare m').any r.holds := by
    cases m.compare m' <;> rfl
  cases a with
  | text s =>
    cases b <;> rfl
  | date d =>
    cases b with
    | moment m' => exact hmoments d.toMoment m'
    | _ => rfl
  | moment m =>
    cases b with
    | moment m' => exact hmoments m m'
    | date d => exact hmoments m d.toMoment
    | _ => rfl
  | int _ | float _ =>
    cases b with
    | int _ | float _ => rfl
    | _ => rfl
  | _ => cases b <;> rfl

/-- Level values are equal, but for a date and its midnight. -/
theorem matchesValue_iff_standing (hb : b.IsOrderable) :
    a.matchesValue caseSensitive b = true ↔ standing? caseSensitive a b = some .eq ∧ ¬AtMidnight a b := by
  have hnever {a b : Value} (ha : ∀ d, a ≠ date d) (hb : ∀ d, b ≠ date d) : ¬AtMidnight a b := by
    rintro ⟨d, ⟨rfl, -⟩ | ⟨-, rfl⟩⟩
    · exact ha d rfl
    · exact hb d rfl
  cases b with
  | text s =>
    cases a with
    | text s' => simp [matchesValue, standing?, hnever]
    | _ => simp [matchesValue, standing?, family, isNull]
  | date d =>
    cases a with
    | date d' => simp [matchesValue, standing?, AtMidnight, family, equal, equalAtoms, Date.compare_eq_iff]
    | moment m => simp [matchesValue, standing?, family, atMidnight_moment_date, Moment.compare_eq_iff_midnight]
    | _ => simp [matchesValue, standing?, family, isNull]
  | moment m =>
    cases a with
    | date d => simp [matchesValue, standing?, family, atMidnight_date_moment, Moment.compare_midnight_iff]
    | moment m' => simp [matchesValue, standing?, hnever, family, equal, equalAtoms, Moment.sameTime]
    | _ => simp [matchesValue, standing?, family, isNull]
  | int _ | float _ =>
    cases a with
    | int _ | float _ => simp [matchesValue, standing?, hnever, family, equal, equalAtoms, number?]
    | _ => simp [matchesValue, standing?, family, isNull]
  | _ => exact hb.elim

theorem AtMidnight.standing (h : AtMidnight a b) : standing? caseSensitive a b = some .eq := by
  obtain ⟨d, ⟨rfl, rfl⟩ | ⟨rfl, rfl⟩⟩ := h
  · exact Moment.compare_midnight_iff.2 rfl
  · exact Moment.compare_midnight_iff.2 rfl

theorem orderedThrough_of_not_isArray (ha : a.isArray = false) (r : Relation) :
    orderedThrough caseSensitive r b a = (standing? caseSensitive a b).any r.holds := by
  rw [← ordered?_getD]
  cases a with
  | list _ | tuple _ => cases ha
  | _ => rfl

theorem matchesThrough_of_not_isArray (ha : a.isArray = false) :
    a.matchesThrough caseSensitive b = a.matchesValue caseSensitive b := by
  have hitems : a.items? = none := by simpa [isArray] using ha
  simp [matchesThrough, hitems]

end Value

/-! ## Operators -/

namespace Builtin

variable {t : Terms} {a b : Value} {operand : Operand} {path : String}

/-- Does a value pass an operator? -/
def Passes (t : Terms) (op : Builtin) (a : Value) (operand : Operand) : Prop := op.test t a operand = .done (.ok true)

/-- The operators that compare a value with an operand that has an order. -/
def comparisons : List Builtin := [gt, gte, lt, lte]

theorem check_comparison {op : Builtin} (hop : op ∈ comparisons) :
    op.check b path = .ok operand ↔ operand = .value b ∧ b.IsOrderable := by
  have hcheck : op.check b path = Operand.Site.orderable ⟨b, path⟩ := by
    simp only [comparisons, List.mem_cons, List.not_mem_nil, or_false] at hop
    rcases hop with rfl | rfl | rfl | rfl <;> rfl
  rw [hcheck]
  cases b <;> simp [Operand.Site.orderable, Operand.Site.reject, Value.IsOrderable, eq_comm]

/-- An order operator passes where the value stands to the operand as it asks. -/
theorem passes_comparison_iff (op : Builtin) {r : Relation} (hr : op.orderRelation? = some r) (ha : a.isArray = false) :
    Passes t op a (.value b) ↔ ∃ o, Value.standing? t.caseSensitive a b = some o ∧ r.holds o = true := by
  have htest : op.test t a (.value b) = .done (.ok (Value.orderedThrough t.caseSensitive r b a)) := by
    cases op <;> cases hr <;> rfl
  rw [Passes, htest, Value.orderedThrough_of_not_isArray ha]
  cases Value.standing? t.caseSensitive a b <;> simp

theorem passes_eq_iff (ha : a.isArray = false) (hb : b.IsOrderable) :
    Passes t eq a (.value b) ↔ Value.standing? t.caseSensitive a b = some .eq ∧ ¬Value.AtMidnight a b := by
  rw [← Value.matchesValue_iff_standing hb, ← Value.matchesThrough_of_not_isArray ha]
  show Evaluation.done (.ok (a.matchesThrough t.caseSensitive b)) = .done (.ok true) ↔ _
  simp

def newYearsDay : Date := ⟨2024, 1, 1, rfl⟩

/-- Tests that take the case of texts into account. -/
def strictTerms : Terms := ⟨true, none, newYearsDay.toMoment, Functions.standard⟩

end Builtin

end Winnow
