import Winnow.Number.Shortest
/-! # Text of numbers

Floats are written with their shortest digits, positionally while the leading digit stands between
the fourth place after the point and the sixteenth before it, otherwise with a two-digit exponent.
Fixed places and a fixed exponent form round the exact value, a half to the even digit. -/

namespace Winnow

/-- Where positional notation ends and what stands for values without digits. -/
structure FloatLayout where
  smallest : Int
  largest : Int
  nan : String
  infinity : String
deriving Repr

/-- The layout of values. -/
def FloatLayout.literal : FloatLayout := ⟨-4, 16, "nan", "inf"⟩

/-- The layout of transport text. -/
def FloatLayout.transport : FloatLayout := ⟨-4, 16, "NaN", "Infinity"⟩

def zeros (n : Nat) : String := String.ofList (List.replicate n '0')

/-- At least two digits of exponent, always signed. -/
def exponentText (e : Int) : String :=
  let digits := toString e.natAbs
  (if e < 0 then "-" else "+") ++ (if e.natAbs < 10 then "0" ++ digits else digits)

namespace Decimal

/-- Positional or exponent form of a positive decimal. -/
def text (layout : FloatLayout) (d : Decimal) : String :=
  let digits := Nat.toDigits 10 d.digits
  let n := digits.length
  let point : Int := n + d.exponent
  if layout.smallest < point ∧ point ≤ layout.largest then
    if point ≤ 0 then "0." ++ zeros (-point).toNat ++ String.ofList digits
    else if (n : Int) ≤ point then String.ofList digits ++ zeros (point - n).toNat ++ ".0"
    else String.ofList (digits.take point.toNat) ++ "." ++ String.ofList (digits.drop point.toNat)
  else
    let fraction := digits.drop 1
    String.ofList (digits.take 1) ++ (if fraction.isEmpty then "" else "." ++ String.ofList fraction)
      ++ "e" ++ exponentText (point - 1)

end Decimal

/-- Text of a float: the shortest digits that read back, in the given layout. -/
def floatText (layout : FloatLayout) (f : Float) : String :=
  let sign := if Exact.signBit f then "-" else ""
  match Exact.magnitude? f with
  | some (0, _) => sign ++ "0.0"
  | some (m, q) => sign ++ (Decimal.shortest m q).text layout
  | none => if f.toBits.toNat % Nat.pow 2 52 = 0 then sign ++ layout.infinity else layout.nan

/-- `num / den` with a fixed number of places after the point. -/
def fixedPlaces (places num den : Nat) : String :=
  let scaled := roundDiv (num * Nat.pow 10 places) den
  let whole := toString (scaled / Nat.pow 10 places)
  if places = 0 then whole
  else
    let fraction := toString (scaled % Nat.pow 10 places)
    whole ++ "." ++ zeros (places - fraction.length) ++ fraction

/-- A float with a fixed number of places. -/
def floatFixed (places : Nat) (f : Float) : String :=
  let sign := if Exact.signBit f then "-" else ""
  match Exact.magnitude? f with
  | some (m, q) =>
    sign ++ if 0 ≤ q then fixedPlaces places (m * Nat.pow 2 q.toNat) 1 else fixedPlaces places m (Nat.pow 2 (-q).toNat)
  | none => if f.toBits.toNat % Nat.pow 2 52 = 0 then sign ++ "inf" else "nan"

/-- A float in exponent form with a fixed number of places after the leading digit. -/
def floatScientific (places : Nat) (f : Float) : String :=
  let sign := if Exact.signBit f then "-" else ""
  match Exact.magnitude? f with
  | some (0, _) => sign ++ fixedPlaces places 0 1 ++ "e+00"
  | some (m, q) =>
    let (num, den) := if 0 ≤ q then (m * Nat.pow 2 q.toNat, 1) else (m, Nat.pow 2 (-q).toNat)
    let k := Decimal.leading num den
    let (n, d) := Decimal.onGrid num den (k - 1 - places)
    let digits := roundDiv n d
    let (digits, k) := if digits = Nat.pow 10 (places + 1) then (Nat.pow 10 places, k + 1) else (digits, k)
    sign ++ fixedPlaces places digits (Nat.pow 10 places) ++ "e" ++ exponentText (k - 1)
  | none => if f.toBits.toNat % Nat.pow 2 52 = 0 then sign ++ "inf" else "nan"

end Winnow
