import Winnow.Time.Calendar
/-! # Ages and hours

Whole calendar units between two dates; negative when the second is earlier. Ranges of hours may run
past midnight. -/

namespace Winnow

inductive AgeUnit
  | years | months | days
deriving DecidableEq, Repr

namespace AgeUnit

def name : AgeUnit → String
  | years => "years"
  | months => "months"
  | days => "days"

def ofName? (s : String) : Option AgeUnit := [years, months, days].find? (·.name == s)

end AgeUnit

namespace Date

/-- Full years from birth; a birthday later in the year is still to come. -/
def wholeYears (birth today : Date) : Int :=
  let years := (today.year : Int) - birth.year
  if today.month < birth.month ∨ (today.month = birth.month ∧ today.day < birth.day) then years - 1
  else years

/-- Full months from birth. -/
def wholeMonths (birth today : Date) : Int :=
  let months := ((today.year : Int) - birth.year) * 12 + ((today.month : Int) - birth.month)
  if today.day < birth.day then months - 1 else months

def wholeDays (birth today : Date) : Int := (today.ordinal : Int) - birth.ordinal

/-- Age in whole units. -/
def age (birth today : Date) : AgeUnit → Int
  | .years => birth.wholeYears today
  | .months => birth.wholeMonths today
  | .days => birth.wholeDays today

end Date

/-- Is the hour in the range, its start included and its end not? A range whose start is later than its
end runs past midnight. -/
def hourInRange (hour start stop : Int) : Bool :=
  if start ≤ stop then decide (start ≤ hour) && decide (hour < stop)
  else decide (start ≤ hour) || decide (hour < stop)

end Winnow
