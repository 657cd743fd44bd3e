import Winnow.Time.Calendar
/-! # Moments

A moment is a wall clock reading, with or without a fixed offset from universal time. Moments with
offsets are compared as instants, those without as readings, and the two kinds are not ordered. All
durations are whole microseconds. -/

namespace Winnow

def second : Int := 1000000
def minute : Int := 60 * second
def hour : Int := 60 * minute
def wholeDay : Int := 24 * hour

/-- The longest duration, in days. -/
def maxSpanDays : Int := 999999999

def isReading (hour minute second micro : Nat) : Bool :=
  hour < 24 && minute < 60 && second < 60 && micro < 1000000

def isOffset (offset : Int) : Bool := -wholeDay < offset && offset < wholeDay

theorem all_isOffset_none : Option.all isOffset none = true := rfl

theorem all_isOffset_zero : Option.all isOffset (some 0) = true := rfl

/-- A wall clock reading and its offset from universal time in microseconds. -/
structure Moment where
  date : Date
  hour : Nat
  minute : Nat
  second : Nat
  micro : Nat
  offset : Option Int
  isReading : isReading hour minute second micro = true := by decide
  isOffset : offset.all isOffset = true := by decide
deriving DecidableEq, Repr

namespace Moment

def make? (date : Date) (hour minute second micro : Nat) (offset : Option Int) : Option Moment :=
  if h : Winnow.isReading hour minute second micro = true ∧ offset.all Winnow.isOffset = true then
    some ⟨date, hour, minute, second, micro, offset, h.1, h.2⟩
  else none

def midnight (d : Date) : Moment := ⟨d, 0, 0, 0, 0, none, by decide, all_isOffset_none⟩

/-- Microseconds of the reading since the start of the day before the calendar. -/
def reading (m : Moment) : Int :=
  m.date.ordinal * wholeDay + m.hour * Winnow.hour + m.minute * Winnow.minute +
    m.second * Winnow.second + m.micro

/-- Microseconds of the instant in universal time; a reading without offset counts as universal. -/
def instant (m : Moment) : Int := m.reading - m.offset.getD 0

/-- The moment with a given reading; `none` when it leaves the calendar. -/
def ofReading? (t : Int) (offset : Option Int) : Option Moment :=
  match Date.ofOrdinal? (t / wholeDay) with
  | none => none
  | some date =>
    let rest := (t % wholeDay).toNat
    make? date (rest / 3600000000) (rest / 60000000 % 60) (rest / 1000000 % 60) (rest % 1000000) offset

/-- Later by a duration, on the same clock. -/
def add? (m : Moment) (span : Int) : Option Moment := ofReading? (m.reading + span) m.offset

/-- Order of two moments; `none` between one with an offset and one without. -/
def compare (a b : Moment) : Option Ordering :=
  match a.offset, b.offset with
  | none, none => some (Ord.compare a.reading b.reading)
  | some _, some _ => some (Ord.compare a.instant b.instant)
  | _, _ => none

def sameTime (a b : Moment) : Bool := a.compare b == some .eq

end Moment
end Winnow
