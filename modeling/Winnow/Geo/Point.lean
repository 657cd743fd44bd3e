import Winnow.Failure
import Winnow.Value.Order
/-! # Points on the globe

A point has a latitude and a longitude in degrees. It is read from a mapping or an object with the
parts `lat` and `lng`. -/

namespace Winnow

/-- A position by latitude and longitude. -/
structure Position (α : Type) where
  lat : α
  lng : α
deriving DecidableEq, Repr

abbrev Point := Position Float

namespace Point

/-- Whole numbers with a machine form of 64 bits, signed or not. -/
def isMachineInt (i : Int) : Bool := -Int.pow 2 63 ≤ i && i < Int.pow 2 64

/-- The finite number of a coordinate; whole numbers without a machine form have no answer. -/
def coordinate? : Value → Outcome (Option Float)
  | .int i => if isMachineInt i then .ok (floatOfInt? i) else .error (.fault .typeMismatch)
  | .float f => .ok (if (Exact.ofFloat f).isFinite then some f else none)
  | _ => .ok none

def inRange (p : Point) : Bool :=
  decide (-90.0 ≤ p.lat) && decide (p.lat ≤ 90.0) && decide (-180.0 ≤ p.lng) && decide (p.lng ≤ 180.0)

/-- The part of a mapping or object; null when it has none. -/
def part (v : Value) (name : String) : Value :=
  match v with
  | .object entries => (Value.get? entries name).getD .null
  | .record fields => (fields.lookup name).getD .null
  | _ => .null

/-- The point that a value denotes. The longitude is looked at only when the latitude is a number. -/
def ofValue (v : Value) : Outcome (Option Point) := do
  match ← coordinate? (part v "lat") with
  | none => return none
  | some lat =>
    match ← coordinate? (part v "lng") with
    | none => return none
    | some lng => return if inRange ⟨lat, lng⟩ then some ⟨lat, lng⟩ else none

def toValue (p : Point) : Value := .tuple [.float p.lat, .float p.lng]

def earthRadius : Float := 6371000.0

def pi : Float := floatOfBits false 4614256656552045848

def radians (degrees : Float) : Float := degrees * (pi / 180.0)

/-- The number moved into the range from -1 to 1. -/
def clamp (x : Float) : Float := if x < -1.0 then -1.0 else if 1.0 < x then 1.0 else x

/-- Metres between two points along a great circle, by the law of cosines. Rounding can push the
cosine past one, hence the clamp. -/
def distance (a b : Point) : Float :=
  let lat₁ := radians a.lat
  let lat₂ := radians b.lat
  let lng₁ := radians a.lng
  let lng₂ := radians b.lng
  let cosine := lat₁.sin * lat₂.sin + lat₁.cos * lat₂.cos * (lng₂ - lng₁).cos
  earthRadius * (clamp cosine).acos

end Point
end Winnow
