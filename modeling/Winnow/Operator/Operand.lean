import Winnow.Value.Slots
import Winnow.Operator.Builtin
import Winnow.Geo.Region
import Winnow.Time.Age
import Winnow.Time.Span
import Winnow.Pattern.Match
import Winnow.Pattern.Safety
/-! # Operands

Every operator checks its operand once, before any record is read, and keeps it in the form in which it
is used. `Builtin.check` says which operands an operator accepts. -/

namespace Winnow

/-- Points within a distance of a center, in metres. -/
structure Vicinity where
  center : Point
  maxDistance : Float
  minDistance : Option Float
deriving Repr

structure Box where
  southwest : Point
  northeast : Point
deriving Repr

/-- Ages between two numbers of units; either may be absent. -/
structure AgeRange where
  least : Option Value
  most : Option Value
  unit : AgeUnit
deriving Repr

inductive Operand
  /-- the operand as it was given -/
  | value (v : Value)
  | items (items : List Value)
  /-- a duration in microseconds -/
  | span (microseconds : Int)
  | weekdays (days : List Int)
  | hours (start stop : Int)
  | age (range : AgeRange)
  | vicinity (v : Vicinity)
  | box (b : Box)
  | polygon (vertices : List Point)
deriving Repr

namespace Operand

/-- The operand as a value. -/
def toValue : Operand → Value
  | value v => v
  | items vs => .tuple vs
  | span us => .span us
  | weekdays days => .ofItems (days.map .int)
  | hours start stop => .tuple [.int start, .int stop]
  | age _ => .other "AgeQuery" ""
  | vicinity _ => .other "NearQuery" ""
  | box _ => .other "BoundingBox" ""
  | polygon _ => .other "PolygonQuery" ""

/-- Where an operand stands, and the operand. -/
structure Site where
  operand : Value
  path : String

namespace Site

/-- Rejects the operand. -/
def reject {α : Type} (s : Site) (e : ExpressionError) : Outcome α :=
  .error (.expression e s.operand s.path)

def orderable (s : Site) : Outcome Operand :=
  match s.operand with
  | .int _ | .float _ | .text _ | .date _ | .moment _ => .ok (.value s.operand)
  | v => s.reject (.notOrderable v.typeName)

def flag (s : Site) : Outcome Operand :=
  match s.operand with
  | .bool _ => .ok (.value s.operand)
  | v => s.reject (.notFlag v)

def array (s : Site) : Outcome Operand :=
  match s.operand with
  | .list vs | .tuple vs | .set vs => .ok (.items vs)
  | v => s.reject (.operandNotArray v.typeName)

def size (s : Site) : Outcome Operand :=
  match s.operand with
  | .int n => if n < 0 then s.reject (.badSize (.int n)) else .ok (.value (.int n))
  | v => s.reject (.badSize v)

def text (s : Site) : Outcome Operand :=
  match s.operand with
  | .text _ => .ok (.value s.operand)
  | v => s.reject (.operandNotText v.typeName)

/-- The longest pattern source that is accepted. -/
def maxPatternLength : Int := 1000

/-- A compiled pattern is accepted as it is; a source has to be free of hazards and well formed. -/
def pattern (s : Site) : Outcome Operand :=
  match s.operand with
  | .pattern _ => .ok (.value s.operand)
  | .text source =>
    match hazard? source maxPatternLength with
    | some h => s.reject (.refusedPattern source h.message)
    | none =>
      match Pattern.make? source 0 with
      | .ok _ => .ok (.value s.operand)
      | .error .malformed => s.reject (.invalidPattern source)
      | .error .countTooLarge => .error (.fault .overflow)
      | .error .badFlags => .error (.fault .badValue)
  | v => s.reject (.operandNotText v.typeName)

/-- Is it a number below zero, or no number? Flags are no numbers here. -/
def isBadAmount (v : Value) : Bool :=
  match v with
  | .int n => n < 0
  | .float _ => v.relate? .lt (.int 0) == some true
  | _ => true

def isPositive (v : Value) : Bool := v.relate? .gt (.int 0) == some true

/-- Units of relative time, in microseconds. -/
def timeUnits : List (String × Int) := [("days", wholeDay), ("hours", hour), ("minutes", minute)]

/-- Values in ascending order; unordered values are a fault. -/
def ascending (vs : List Value) : Outcome (List Value) :=
  let comparable := vs.all fun a => vs.all fun b => a.equal b || (a.relate? .lt b).isSome
  if comparable then .ok (vs.mergeSort fun a b => b.relate? .lt a != some true)
  else .error (.fault .typeMismatch)

def relativeTime (s : Site) : Outcome Operand := do
  match s.operand with
  | .object entries =>
    let unknown := (entries.map (·.1)).filter fun k =>
      !timeUnits.any fun u => k.equal (.text u.1)
    if !unknown.isEmpty then s.reject (.relativeUnknown (← ascending unknown))
    let amounts ← timeUnits.filterMapM fun (name, unit) =>
      match (Value.get? entries name).getD .null with
      | .null => pure none
      | v => if isBadAmount v then s.reject (.relativeAmount name v) else pure (some (unit, v))
    if amounts.all fun a => !isPositive a.2 then s.reject .relativeEmpty
    return .span (← Span.ofAmounts amounts.reverse)
  | _ => s.reject .relativeShape

def isWeekdayNumber : Value → Bool
  | .int n => 0 ≤ n && n ≤ 6
  | _ => false

def dayNumber : Value → Int
  | .int n => n
  | _ => 0

def dayOfWeek (s : Site) : Outcome Operand :=
  let days := s.operand.items?.getD [s.operand]
  if days.isEmpty || !days.all isWeekdayNumber then s.reject (.badWeekdays s.operand)
  else .ok (.weekdays ((days.map dayNumber).foldl (fun ds d => if ds.contains d then ds else ds ++ [d]) []))

/-- An hour of the day. -/
def hourOf (s : Site) (v : Value) : Outcome Int :=
  match v with
  | .int n => if 0 ≤ n ∧ n ≤ 23 then .ok n else s.reject (.badHour v)
  | _ => s.reject (.badHour v)

def timeOfDay (s : Site) : Outcome Operand := do
  match s.operand with
  | .object entries =>
    match Value.get? entries "start", Value.get? entries "end" with
    | some start, some stop =>
      let start ← s.hourOf start
      let stop ← s.hourOf stop
      return .hours start stop
    | _, _ => s.reject .hoursShape
  | _ => s.reject .hoursShape

def ageBound (s : Site) (entries : List (Value × Value)) (key : String) : Outcome (Option Value) :=
  match (Value.get? entries key).getD .null with
  | .null => .ok none
  | v => if isBadAmount v then s.reject (.ageBound key v) else .ok (some v)

def ageRange (s : Site) : Outcome Operand := do
  match s.operand with
  | .object entries =>
    let name := (Value.get? entries "unit").getD (.text AgeUnit.years.name)
    let unit? : Option AgeUnit :=
      match name with
      | .text name => AgeUnit.ofName? name
      | _ => none
    match unit? with
    | none => s.reject (.ageUnit name)
    | some unit =>
      let least ← s.ageBound entries "min"
      let most ← s.ageBound entries "max"
      match least, most with
      | some a, some b => if a.relate? .gt b == some true then s.reject .ageOrder
      | _, _ => pure ()
      return .age ⟨least, most, unit⟩
  | _ => s.reject .ageShape

def date (s : Site) : Outcome Operand :=
  match s.operand with
  | .date _ | .moment _ => .ok (.value s.operand)
  | v => s.reject (.notDate v.typeName)

def point (s : Site) (what : String) (v : Value) : Outcome Point := do
  match ← Point.ofValue v with
  | some p => return p
  | none => s.reject (.badPoint what v)

def distance (s : Site) (what : String) (v : Value) : Outcome Float :=
  if isBadAmount v then s.reject (.badDistance what v)
  else
    match v with
    | .int n =>
      match floatOfInt? n with
      | some f => .ok f
      | none => .error (.fault .overflow)
    | .float f => .ok f
    | _ => s.reject (.badDistance what v)

/-- The entries of an operand that has to be a mapping. -/
def entries (s : Site) (name : String) : Outcome (List (Value × Value)) :=
  match s.operand with
  | .object entries => .ok entries
  | _ => s.reject (.geoShape name)

/-- The part of an operand that has to have it. -/
def require (s : Site) (name : String) (entries : List (Value × Value)) (part : String) :
    Outcome Value :=
  match Value.get? entries part with
  | some v => .ok v
  | none => s.reject (.geoRequires name part)

def vicinity (s : Site) : Outcome Operand := do
  let name := Builtin.near.key
  let entries ← s.entries name
  let center ← s.require name entries "center"
  let most ← s.require name entries "maxDistanceMeters"
  let center ← s.point "$near center" center
  let most ← s.distance "maxDistanceMeters" most
  match (Value.get? entries "minDistanceMeters").getD .null with
  | .null => return .vicinity ⟨center, most, none⟩
  | least => return .vicinity ⟨center, most, some (← s.distance "minDistanceMeters" least)⟩

def box (s : Site) : Outcome Operand := do
  let name := Builtin.geoBox.key
  let entries ← s.entries name
  let southwest ← s.require name entries "southwest"
  let northeast ← s.require name entries "northeast"
  let southwest ← s.point "$geoBox southwest" southwest
  let northeast ← s.point "$geoBox northeast" northeast
  return .box ⟨southwest, northeast⟩

def polygon (s : Site) : Outcome Operand := do
  let entries ← s.entries Builtin.geoPolygon.key
  match ((Value.get? entries "points").bind Value.items?) with
  | none => s.reject .geoPointsArray
  | some points =>
    if points.length < 3 then s.reject .geoFewPoints
    return .polygon (← points.mapM (s.point "$geoPolygon vertex"))

end Site
end Operand

/-- The operand of a built-in operator, in the form in which it is used. -/
def Builtin.check (b : Builtin) (operand : Value) (path : String) : Outcome Operand :=
  let s : Operand.Site := ⟨operand, path⟩
  match b with
  | eq | ne | contains => .ok (.value operand)
  | gt | gte | lt | lte => s.orderable
  | isPresent | isWeekday | isWeekend => s.flag
  | isIn | notIn | all => s.array
  | size => s.size
  | startsWith | endsWith => s.text
  | regex | search => s.pattern
  | near => s.vicinity
  | geoBox => s.box
  | geoPolygon => s.polygon
  | recent | upcoming => s.relativeTime
  | dayOfWeek => s.dayOfWeek
  | timeOfDay => s.timeOfDay
  | age => s.ageRange
  | isBefore | isAfter => s.date

end Winnow
