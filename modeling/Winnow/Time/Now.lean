import Winnow.Time.Moment
import Winnow.Failure
/-! # The present

A clock reads a moment with or without an offset. Moments without an offset are read as UTC whenever
the other side has one. -/

namespace Winnow

def Failure.ofOverflow {α : Type} : Option α → Outcome α
  | some a => .ok a
  | none => .error (.fault .overflow)

namespace Moment

/-- The same instant at an offset; overflows outside the calendar. -/
def atOffset (m : Moment) (offset : Int) : Outcome Moment := do
  let inUtc ← Failure.ofOverflow (ofReading? m.instant (some 0))
  Failure.ofOverflow (ofReading? (inUtc.reading + offset) (some offset))

/-- The first day of the calendar has no local day before it, so it cannot be placed in a zone. -/
def placed (m : Moment) : Outcome Moment :=
  if m.date.ordinal ≤ 1 then .error (.fault .badValue)
  else .ok { m with offset := some 0, isOffset := all_isOffset_zero }

/-- The reading `now` that can be compared with a moment: without an offset for one without, else at
its offset. -/
def nowFor (now value : Moment) : Outcome Moment :=
  match value.offset, now.offset with
  | none, none => .ok now
  | none, some _ => do
    let inUtc ← now.atOffset 0
    return { inUtc with offset := none, isOffset := all_isOffset_none }
  | some offset, none => do (← now.placed).atOffset offset
  | some offset, some _ => now.atOffset offset

end Moment

/-- A date stands for its midnight. -/
def Date.toMoment (d : Date) : Moment := Moment.midnight d

/-- The moment of a date or moment. -/
def Value.moment? : Value → Option Moment
  | .moment m => some m
  | .date d => some d.toMoment
  | _ => none

end Winnow
