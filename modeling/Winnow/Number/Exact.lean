/-! # Exact values of floats

A float denotes a dyadic rational, an infinity or nothing. `Exact.ofFloat` reads that value off the
bits, and `Exact.compare` orders whole numbers and floats together as the rationals they denote, so
no precision is lost between them. `Exact.toFloat` goes back: the nearest float, ties to even. -/

namespace Winnow

/-- What a number denotes: `m · 2^e`, an infinity, or no number at all. -/
inductive Exact
  | nan
  | infinite (negative : Bool)
  | finite (mantissa : Int) (exponent : Int)
deriving DecidableEq, Repr

namespace Exact

def ofInt (i : Int) : Exact := .finite i 0

/-- The sign bit of a float, which is set for `-0.0` too. -/
def signBit (f : Float) : Bool := f.toBits.toNat / Nat.pow 2 63 == 1

/-- Magnitude of a finite float as mantissa and exponent; `none` for infinities and NaN. -/
def magnitude? (f : Float) : Option (Nat × Int) :=
  let bits : Nat := f.toBits.toNat
  let biased : Nat := bits / Nat.pow 2 52 % Nat.pow 2 11
  let fraction : Nat := bits % Nat.pow 2 52
  if biased = 2047 then none
  else if biased = 0 then some (fraction, -1074)
  else some (Nat.pow 2 52 + fraction, (biased : Int) - 1075)

def ofFloat (f : Float) : Exact :=
  match magnitude? f with
  | some (m, e) => .finite (if signBit f then -(m : Int) else m) e
  | none => if f.toBits.toNat % Nat.pow 2 52 = 0 then .infinite (signBit f) else .nan

/-- The integer `m · 2^(e - low)`, for `low ≤ e`. -/
def scaled (m e low : Int) : Int := m * Int.pow 2 (e - low).toNat

/-- Order of two denoted values; `none` when either is no number. -/
def compare : Exact → Exact → Option Ordering
  | .nan, _ | _, .nan => none
  | .infinite a, .infinite b => some (if a = b then .eq else if a then .lt else .gt)
  | .infinite a, .finite .. => some (if a then .lt else .gt)
  | .finite .., .infinite b => some (if b then .gt else .lt)
  | .finite m e, .finite n k =>
    let low := min e k
    some (Ord.compare (scaled m e low) (scaled n k low))

def isFinite : Exact → Bool
  | .finite .. => true
  | _ => false

def isZero : Exact → Bool
  | .finite m _ => m == 0
  | _ => false

/-- The whole part, toward zero; `none` when there is none. -/
def truncate? : Exact → Option Int
  | .finite m e => some (if 0 ≤ e then m * Int.pow 2 e.toNat else m.tdiv (Int.pow 2 (-e).toNat))
  | _ => none

/-- The largest whole number below a value or equal to it; `none` when there is none. -/
def floor? : Exact → Option Int
  | .finite m e => some (if 0 ≤ e then m * Int.pow 2 e.toNat else m.fdiv (Int.pow 2 (-e).toNat))
  | _ => none

/-- The whole number a value is equal to, if it is whole. -/
def whole? (x : Exact) : Option Int :=
  match x, x.truncate? with
  | .finite m e, some i => if 0 ≤ e ∨ i * Int.pow 2 (-e).toNat = m then some i else none
  | _, _ => none

end Exact

/-- `num / den` rounded to the nearest whole number, a half to the even neighbour. -/
def roundDiv (num den : Nat) : Nat :=
  let q := num / den
  let twice := 2 * (num % den)
  if twice < den then q else if den < twice then q + 1 else q + q % 2

/-- The bits of the float nearest to `num / den`, a half to the even mantissa; `none` when the
quotient is beyond the largest float. -/
def nearestBits? (num den : Nat) : Option Nat :=
  if num = 0 then some 0 else
  let rough : Int := (num.log2 : Int) - den.log2 - 53
  let at' (e : Int) : Nat :=
    if 0 ≤ e then roundDiv num (den * Nat.pow 2 e.toNat) else roundDiv (num * Nat.pow 2 (-e).toNat) den
  let floorAt (e : Int) : Nat :=
    if 0 ≤ e then num / (den * Nat.pow 2 e.toNat) else num * Nat.pow 2 (-e).toNat / den
  -- the exponent for which the quotient has 53 binary digits is `rough` or one more
  let e := max (if floorAt rough < Nat.pow 2 53 then rough else rough + 1) (-1074)
  let q := at' e
  let (q, e) := if q = Nat.pow 2 53 then (Nat.pow 2 52, e + 1) else (q, e)
  if q < Nat.pow 2 52 then some q
  else
    let biased := (e + 1075).toNat
    if biased < 2047 then some (biased * Nat.pow 2 52 + (q - Nat.pow 2 52)) else none

def floatOfBits (negative : Bool) (bits : Nat) : Float :=
  Float.ofBits (UInt64.ofNat (if negative then bits + Nat.pow 2 63 else bits))

def floatInfinity (negative : Bool) : Float := floatOfBits negative (2047 * Nat.pow 2 52)

def floatNaN : Float := floatOfBits false (2047 * Nat.pow 2 52 + Nat.pow 2 51)

/-- The float nearest to a whole number; `none` beyond the largest float. -/
def floatOfInt? (i : Int) : Option Float :=
  (nearestBits? i.natAbs 1).map (floatOfBits (i < 0))

end Winnow
