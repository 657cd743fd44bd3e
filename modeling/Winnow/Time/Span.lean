import Winnow.Time.Moment
import Winnow.Number.Exact
import Winnow.Failure
/-! # Durations from amounts

A duration is the sum of amounts of units, to the microsecond. Fractions of a microsecond are summed
apart and rounded at the end, a half to the even microsecond. -/

namespace Winnow.Span

/-- A sum of whole microseconds and what is left over. -/
structure Sum where
  whole : Int
  leftover : Float

/-- The whole and the fractional part of a float that is not negative. -/
def parts (f : Float) : Outcome (Int × Float) :=
  match Exact.ofFloat f with
  | .nan => .error (.fault .badValue)
  | .infinite _ => .error (.fault .overflow)
  | x => .ok (x.truncate?.getD 0, f - f.floor)

/-- Adds an amount of a unit. -/
def add (sum : Sum) (unit : Int) (amount : Value) : Outcome Sum :=
  match amount with
  | .int n => .ok { sum with whole := sum.whole + n * unit }
  | .float f => do
    let (n, fraction) ← parts f
    let whole := sum.whole + n * unit
    if (Exact.ofFloat fraction).isZero then return { sum with whole }
    let (n, fraction) ← parts (((floatOfInt? unit).getD 0.0) * fraction)
    return ⟨whole + n, sum.leftover + fraction⟩
  | _ => .error (.fault .typeMismatch)

/-- The nearest whole number, a half away from zero. -/
def roundAway (f : Float) : Int := ((Exact.ofFloat f.round).truncate?).getD 0

/-- The whole microseconds of a sum. -/
def Sum.round (sum : Sum) : Int :=
  let nearest := roundAway sum.leftover
  let half := (((floatOfInt? nearest).getD 0.0) - sum.leftover).abs == 0.5
  if half then
    let odd := sum.whole % 2
    sum.whole + (2 * roundAway ((sum.leftover + (floatOfInt? odd).getD 0.0) * 0.5) - odd)
  else sum.whole + nearest

/-- The duration of amounts with their units. -/
def ofAmounts (amounts : List (Int × Value)) : Outcome Int := do
  let sum ← amounts.foldlM (fun sum (unit, amount) => add sum unit amount) ⟨0, 0.0⟩
  let us := sum.round
  if us < -maxSpanDays * wholeDay ∨ (maxSpanDays + 1) * wholeDay ≤ us then .error (.fault .overflow)
  else return us

end Winnow.Span
