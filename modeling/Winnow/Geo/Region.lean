import Winnow.Geo.Point
/-! # Regions

Boxes are closed and do not wrap around. A polygon holds the points from which a ray crosses its closed
boundary an odd number of times; its vertices are outside. Both work over any ordered coordinates. -/

namespace Winnow.Position

variable {α : Type}

section
variable [LE α] [DecidableLE α]

/-- Is the point between the two corners, the edges included? -/
def inBox (p southwest northeast : Position α) : Bool :=
  decide (southwest.lat ≤ p.lat) && decide (p.lat ≤ northeast.lat) &&
    (decide (southwest.lng ≤ p.lng) && decide (p.lng ≤ northeast.lng))

end

/-- Each vertex with the one before it; the last comes before the first. -/
def edges (vertices : List (Position α)) : List (Position α × Position α) :=
  match vertices.getLast? with
  | some last => vertices.zip (last :: vertices)
  | none => []

section
variable [Add α] [Sub α] [Mul α] [Div α] [LT α] [DecidableLT α] [BEq α]

/-- Does the ray from the point toward larger latitudes cross the edge? -/
def crosses (p a b : Position α) : Bool :=
  decide (p.lng < a.lng) != decide (p.lng < b.lng) &&
    decide (p.lat < (b.lat - a.lat) * (p.lng - a.lng) / (b.lng - a.lng) + a.lat)

/-- Is the point inside the polygon? -/
def inPolygon (p : Position α) (vertices : List (Position α)) : Bool :=
  if vertices.length < 3 then false
  else if vertices.any fun v => v.lat == p.lat && v.lng == p.lng then false
  else (edges vertices).countP (fun (a, b) => p.crosses a b) % 2 == 1

end

end Winnow.Position
