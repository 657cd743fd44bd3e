import Mathlib.Data.Nat.Basic
import Winnow.Time.Calendar
/-! # Days and their ordinals

The days of the calendar are numbered without gaps: from one to `lastOrdinal` every number is that of a
day, and no other number is. -/

namespace Winnow

/-- The number of days in the calendar. -/
def lastOrdinal : Nat := 3652059

def daysInYear (year : Nat) : Nat := if isLeap year then 366 else 365

theorem daysBeforeYear_eq (year : Nat) :
    daysBeforeYear year = (year - 1) * 365 + (year - 1) / 4 - (year - 1) / 100 + (year - 1) / 400 := rfl

theorem daysBeforeYear_succ {year : Nat} (h : 1 ≤ year) :
    daysBeforeYear (year + 1) = daysBeforeYear year + daysInYear year := by
  obtain ⟨y, rfl⟩ := Nat.exists_eq_add_of_le' h
  simp only [daysBeforeYear_eq, Nat.add_sub_cancel, Nat.succ_div, daysInYear, isLeap, Nat.dvd_iff_mod_eq_zero]
  -- a year that is divisible by a number is divisible by the divisors of that number
  have h₄ : (y + 1) % 100 = 0 → (y + 1) % 4 = 0 := by omega
  have h₁₀₀ : (y + 1) % 400 = 0 → (y + 1) % 100 = 0 := by omega
  have hle : y / 100 ≤ y / 4 := by omega
  by_cases h4 : (y + 1) % 4 = 0 <;> by_cases h100 : (y + 1) % 100 = 0 <;>
    by_cases h400 : (y + 1) % 400 = 0 <;>
    simp_all <;> omega

/-! ## Months -/

theorem daysBeforeMonth_succ (year : Nat) {month : Nat} (h : 1 ≤ month) :
    daysBeforeMonth year (month + 1) = daysBeforeMonth year month + daysInMonth year month := by
  obtain ⟨m, rfl⟩ := Nat.exists_eq_add_of_le' h
  simp [daysBeforeMonth, List.range_succ]

theorem daysBeforeMonth_end (year : Nat) : daysBeforeMonth year 13 = daysInYear year := by
  cases h : isLeap year <;> simp [daysBeforeMonth, daysInYear, daysInMonth, h, List.range_succ]

theorem daysBeforeMonth_mono (year : Nat) {a b : Nat} (ha : 1 ≤ a) (h : a ≤ b) :
    daysBeforeMonth year a ≤ daysBeforeMonth year b := by
  induction b, h using Nat.le_induction with
  | base => exact le_rfl
  | succ b hb ih =>
    rw [daysBeforeMonth_succ year (le_trans ha hb)]
    exact le_trans ih (Nat.le_add_right ..)

namespace Date

/-- The month of the `n`-th day that is left from a month on. -/
theorem monthOfDay_spec (year : Nat) {fuel month n : Nat} (hmonth : 1 ≤ month)
    (hfuel : fuel + month = 12) (hn : 1 ≤ n)
    (hleft : daysBeforeMonth year month + n ≤ daysInYear year) :
    ∃ m d, monthOfDay year fuel month n = (m, d) ∧ 1 ≤ m ∧ m ≤ 12 ∧ 1 ≤ d ∧ d ≤ daysInMonth year m ∧
      daysBeforeMonth year m + d = daysBeforeMonth year month + n := by
  induction fuel generalizing month n with
  | zero =>
    obtain rfl : month = 12 := by omega
    have hend := daysBeforeMonth_succ year (show 1 ≤ 12 by decide)
    rw [daysBeforeMonth_end] at hend
    exact ⟨12, n, rfl, by decide, le_rfl, hn, by omega, rfl⟩
  | succ fuel ih =>
    rw [monthOfDay]
    split
    · next h => exact ⟨month, n, rfl, hmonth, by omega, hn, h, rfl⟩
    · next h =>
      have hsucc := daysBeforeMonth_succ year hmonth
      have hrest : 1 ≤ n - daysInMonth year month := by omega
      obtain ⟨m, d, heq, h₁, h₂, h₃, h₄, h₅⟩ := ih (Nat.le_add_left 1 month) (by omega) hrest (by omega)
      exact ⟨m, d, heq, h₁, h₂, h₃, h₄, by omega⟩

/-! ## Years -/

/-- The year of a day: the guess is off by one at most. -/
theorem yearOfOrdinal_spec {n : Nat} (hn : 1 ≤ n) :
    1 ≤ yearOfOrdinal n ∧ daysBeforeYear (yearOfOrdinal n) < n ∧
      n ≤ daysBeforeYear (yearOfOrdinal n + 1) := by
  unfold yearOfOrdinal
  simp only
  have hbelow : daysBeforeYear ((n - 1) * 400 / 146097) < n := by
    rw [daysBeforeYear_eq]
    omega
  have habove : n ≤ daysBeforeYear ((n - 1) * 400 / 146097 + 1 + 1 + 1) := by
    rw [daysBeforeYear_eq]
    omega
  split
  · next h =>
    refine ⟨?_, hbelow, h⟩
    rcases Nat.eq_zero_or_pos ((n - 1) * 400 / 146097) with h' | h'
    · rw [h'] at h
      exact absurd hn (by simpa [daysBeforeYear_eq] using h)
    · exact h'
  split
  · next h => exact ⟨Nat.le_add_left .., h, habove⟩
  · next h h' => exact ⟨Nat.le_add_left .., Nat.lt_of_not_le h, Nat.le_of_not_lt h'⟩

/-! ## Days -/

theorem daysBeforeYear_mono {a b : Nat} (ha : 1 ≤ a) (h : a ≤ b) : daysBeforeYear a ≤ daysBeforeYear b := by
  induction b, h using Nat.le_induction with
  | base => exact le_rfl
  | succ b hb ih =>
    rw [daysBeforeYear_succ (le_trans ha hb)]
    exact le_trans ih (Nat.le_add_right ..)

/-- The year, month and day that a number is taken for: a day unless the year is beyond the calendar. -/
theorem ofOrdinal?_eq_make? {n : Nat} (hn : 1 ≤ n) :
    ∃ year month day, ofOrdinal? n = make? year month day ∧
      Winnow.isDay year month day = decide (year ≤ 9999) ∧ (year ≤ 9999 ↔ n ≤ lastOrdinal) ∧
      daysBeforeYear year + daysBeforeMonth year month + day = n := by
  obtain ⟨hyear, hafter, hwithin⟩ := yearOfOrdinal_spec hn
  rw [ofOrdinal?, if_neg (by omega)]
  simp only [Int.toNat_natCast]
  generalize yearOfOrdinal n = year at *
  rw [daysBeforeYear_succ hyear] at hwithin
  have hstart : daysBeforeMonth year 1 = 0 := rfl
  have hend : daysBeforeYear 10000 = lastOrdinal := rfl
  obtain ⟨month, day, heq, hmonth, hmonth', hday, hday', hsum⟩ :=
    monthOfDay_spec year (show 1 ≤ 1 from le_rfl) (show 11 + 1 = 12 from rfl)
      (show 1 ≤ n - daysBeforeYear year by omega) (by omega)
  refine ⟨year, month, day, by rw [heq], ?_, ⟨fun hle => ?_, fun hle => ?_⟩, by omega⟩
  · simp [Winnow.isDay, hyear, hmonth, hmonth', hday, hday']
  · have hlast := daysBeforeYear_mono (Nat.le_add_left 1 year) (show year + 1 ≤ 10000 by omega)
    rw [daysBeforeYear_succ hyear] at hlast
    omega
  · by_contra hgt
    have hlast := daysBeforeYear_mono (show 1 ≤ 10000 by decide) (show 10000 ≤ year by omega)
    omega

/-- Every number of the calendar is that of a day. -/
theorem exists_ofOrdinal? {n : Int} (h : 1 ≤ n) (h' : n ≤ lastOrdinal) :
    ∃ d, ofOrdinal? n = some d ∧ (d.ordinal : Int) = n := by
  obtain ⟨k, rfl⟩ := Int.eq_ofNat_of_zero_le (show 0 ≤ n by omega)
  obtain ⟨year, month, day, heq, hvalid, hlast, hsum⟩ := ofOrdinal?_eq_make? (show 1 ≤ k by omega)
  have hday : Winnow.isDay year month day = true := hvalid.trans (decide_eq_true (hlast.2 (by omega)))
  exact ⟨⟨year, month, day, hday⟩, heq.trans (dif_pos hday), congrArg Int.ofNat hsum⟩

theorem ofOrdinal?_eq_none {n : Int} (h : n < 1 ∨ lastOrdinal < n) : ofOrdinal? n = none := by
  by_cases hn : n < 1
  · rw [ofOrdinal?, if_pos hn]
  · obtain ⟨k, rfl⟩ := Int.eq_ofNat_of_zero_le (show 0 ≤ n by omega)
    obtain ⟨year, month, day, heq, hvalid, hlast, -⟩ := ofOrdinal?_eq_make? (show 1 ≤ k by omega)
    exact heq.trans (dif_neg (by simp [hvalid, hlast]; omega))

theorem ordinal_pos (d : Date) : 1 ≤ d.ordinal := by
  have hday := d.isDay
  simp only [Winnow.isDay, Bool.and_eq_true, decide_eq_true_eq] at hday
  rw [ordinal]
  omega

theorem ordinal_le (d : Date) : d.ordinal ≤ lastOrdinal := by
  have hvalid := d.isDay
  simp only [Winnow.isDay, Bool.and_eq_true, decide_eq_true_eq] at hvalid
  obtain ⟨⟨⟨⟨⟨hyear, hyear'⟩, hmonth⟩, hmonth'⟩, hday⟩, hday'⟩ := hvalid
  have hwithin := daysBeforeMonth_mono d.year (Nat.le_add_left 1 d.month) (show d.month + 1 ≤ 13 by omega)
  have hend := daysBeforeYear_mono (Nat.le_add_left 1 d.year) (show d.year + 1 ≤ 10000 by omega)
  have hlast : daysBeforeYear 10000 = lastOrdinal := rfl
  rw [daysBeforeMonth_succ d.year hmonth, daysBeforeMonth_end] at hwithin
  rw [daysBeforeYear_succ hyear] at hend
  rw [ordinal]
  omega

end Date
end Winnow
