import Mathlib.Order.Monotone.Basic
import Winnow.Proofs.Time.WallClock
import Winnow.Time.Age
/-! # Ages in years, months and days

The three units are counted in three ways: years by birthdays, months by the day of the month, days by the
numbers of days. They agree all the same. A year is twelve months, and in each unit an age grows with the day on
which it is taken, falls with the day of birth, and is negative just before birth. -/

namespace Winnow
namespace Date

/-- Days are ordered by year, month and day. -/
instance : Preorder Date where
  le d d' := d.compare d' ≠ .gt
  le_refl d := compare_ne_gt_iff.2 le_rfl
  le_trans d d' d'' h h' := compare_ne_gt_iff.2 (le_trans (compare_ne_gt_iff.1 h) (compare_ne_gt_iff.1 h'))

variable {birth today d d' : Date}

theorem le_iff_ordinal_le : d ≤ d' ↔ d.ordinal ≤ d'.ordinal := compare_ne_gt_iff

/-- The number of a month, counted from the beginning of year zero. -/
def monthNumber (d : Date) : Int := 12 * d.year + (d.month - 1)

/-- Days of one month are ordered within it, others as their months are. -/
theorem le_iff_monthNumber : d ≤ d' ↔
    d.monthNumber < d'.monthNumber ∨ d.monthNumber = d'.monthNumber ∧ d.day ≤ d'.day := by
  have hmonth := d.month_le
  have hmonth' := d'.month_le
  rw [le_iff_ordinal_le, ← Nat.not_lt, ordinal_lt_iff, monthNumber, monthNumber]
  omega

/-! ## Each unit by the numbers of months -/

theorem wholeMonths_eq : birth.wholeMonths today =
    today.monthNumber - birth.monthNumber - if today.day < birth.day then 1 else 0 := by
  unfold wholeMonths monthNumber
  simp only
  split <;> omega

/-- A year is complete with its twelfth month: its birthday has come just when months of it are left over. -/
theorem wholeYears_eq : birth.wholeYears today = birth.wholeMonths today / 12 := by
  have hbirth := birth.month_le
  have htoday := today.month_le
  unfold wholeYears wholeMonths
  simp only
  split <;> split <;> omega

/-! ## How ages grow -/

theorem wholeMonths_mono (h : d ≤ d') : birth.wholeMonths d ≤ birth.wholeMonths d' := by
  rw [le_iff_monthNumber] at h
  rw [wholeMonths_eq, wholeMonths_eq]
  split <;> split <;> omega

theorem wholeMonths_anti (h : d ≤ d') : d'.wholeMonths today ≤ d.wholeMonths today := by
  rw [le_iff_monthNumber] at h
  rw [wholeMonths_eq, wholeMonths_eq]
  split <;> split <;> omega

theorem wholeMonths_nonneg_iff : 0 ≤ birth.wholeMonths today ↔ birth ≤ today := by
  rw [le_iff_monthNumber, wholeMonths_eq]
  split <;> omega

theorem age_mono (unit : AgeUnit) (h : d ≤ d') : birth.age d unit ≤ birth.age d' unit := by
  cases unit with
  | years =>
    simp only [age, wholeYears_eq]
    exact Int.ediv_le_ediv (by decide) (wholeMonths_mono h)
  | months => exact wholeMonths_mono h
  | days => exact Int.sub_le_sub_right (Int.ofNat_le.2 (le_iff_ordinal_le.1 h)) _

theorem age_anti (unit : AgeUnit) (h : d ≤ d') : d'.age today unit ≤ d.age today unit := by
  cases unit with
  | years =>
    simp only [age, wholeYears_eq]
    exact Int.ediv_le_ediv (by decide) (wholeMonths_anti h)
  | months => exact wholeMonths_anti h
  | days => exact Int.sub_le_sub_left (Int.ofNat_le.2 (le_iff_ordinal_le.1 h)) _

theorem age_nonneg_iff (unit : AgeUnit) : 0 ≤ birth.age today unit ↔ birth ≤ today := by
  cases unit with
  | years =>
    rw [age, wholeYears_eq, ← wholeMonths_nonneg_iff]
    omega
  | months => exact wholeMonths_nonneg_iff
  | days =>
    rw [age, wholeDays, le_iff_ordinal_le]
    omega

/-- A year of age is twelve months of it; an age in any unit grows with the day on which it is taken, falls with
the day of birth, and is negative exactly before birth. -/
theorem ages_consistent (birth today : Date) :
    birth.wholeYears today = birth.wholeMonths today / 12 ∧
      ∀ unit, Monotone (fun d : Date => birth.age d unit) ∧ Antitone (fun d : Date => d.age today unit) ∧
        (0 ≤ birth.age today unit ↔ birth ≤ today) ∧ (birth.age today unit < 0 ↔ today.compare birth = .lt) := by
  have hfuture : today.compare birth = .lt ↔ ¬birth ≤ today := by
    rw [le_iff_ordinal_le, Nat.not_le, ordinal_lt_iff]
    simp [compare, Ordering.then_eq_lt, compare_lt_iff_lt]
  refine ⟨wholeYears_eq, fun unit => ⟨fun _ _ => age_mono unit, fun _ _ => age_anti unit, age_nonneg_iff unit, ?_⟩⟩
  rw [hfuture, ← age_nonneg_iff unit, Int.not_le]

/-- A child born on a leap day is a year older on the first of March. -/
example : (⟨2000, 2, 29, by decide⟩ : Date).age ⟨2001, 2, 28, by decide⟩ .years = 0 ∧
    (⟨2000, 2, 29, by decide⟩ : Date).age ⟨2001, 3, 1, by decide⟩ .years = 1 := by decide

end Date
end Winnow
