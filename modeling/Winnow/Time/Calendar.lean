/-! # Calendar

Days of the proleptic Gregorian calendar, years 1 to 9999, and their ordinals: day 1 is the first of
January of year 1. -/

namespace Winnow

def isLeap (year : Nat) : Bool := year % 4 == 0 && (year % 100 != 0 || year % 400 == 0)

def daysInMonth (year month : Nat) : Nat :=
  match month with
  | 2 => if isLeap year then 29 else 28
  | 4 | 6 | 9 | 11 => 30
  | _ => 31

def isDay (year month day : Nat) : Bool :=
  1 ≤ year && year ≤ 9999 && 1 ≤ month && month ≤ 12 && 1 ≤ day && day ≤ daysInMonth year month

/-- A day of the calendar. -/
structure Date where
  year : Nat
  month : Nat
  day : Nat
  isDay : isDay year month day = true := by decide
deriving DecidableEq, Repr

/-- Days before the first of January of `year`. -/
def daysBeforeYear (year : Nat) : Nat :=
  let y := year - 1
  y * 365 + y / 4 - y / 100 + y / 400

/-- Days of `year` before the first of `month`. -/
def daysBeforeMonth (year month : Nat) : Nat :=
  (List.range (month - 1)).foldl (fun days m => days + daysInMonth year (m + 1)) 0

namespace Date

def make? (year month day : Nat) : Option Date :=
  if h : Winnow.isDay year month day = true then some ⟨year, month, day, h⟩ else none

def ordinal (d : Date) : Nat := daysBeforeYear d.year + daysBeforeMonth d.year d.month + d.day

/-- 0 for Monday to 6 for Sunday. -/
def weekday (d : Date) : Nat := (d.ordinal + 6) % 7

/-- 0 for Sunday to 6 for Saturday. -/
def dayOfWeek (d : Date) : Nat := (d.weekday + 1) % 7

def isWeekend (d : Date) : Bool := d.dayOfWeek == 0 || d.dayOfWeek == 6

def isWeekday (d : Date) : Bool := !d.isWeekend

/-- Month and day of the `n`-th day of a year, counted from one. -/
def monthOfDay (year : Nat) : Nat → Nat → Nat → Nat × Nat
  | 0, month, n => (month, n)
  | fuel + 1, month, n =>
    if n ≤ daysInMonth year month then (month, n)
    else monthOfDay year fuel (month + 1) (n - daysInMonth year month)

/-- The year of an ordinal: the guess from the mean length of a year is at most one too large. -/
def yearOfOrdinal (n : Nat) : Nat :=
  let guess := (n - 1) * 400 / 146097 + 1
  if n ≤ daysBeforeYear guess then guess - 1
  else if daysBeforeYear (guess + 1) < n then guess + 1 else guess

/-- The day with a given ordinal; `none` outside the calendar. -/
def ofOrdinal? (n : Int) : Option Date :=
  if n < 1 then none
  else
    let year := yearOfOrdinal n.toNat
    let (month, day) := monthOfDay year 11 1 (n.toNat - daysBeforeYear year)
    make? year month day

/-- Year, month and day in lexicographic order. -/
def compare (a b : Date) : Ordering :=
  (Ord.compare a.year b.year).then ((Ord.compare a.month b.month).then (Ord.compare a.day b.day))

end Date
end Winnow
