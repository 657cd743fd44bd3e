import Winnow.Operator.Comparison
import Winnow.Operator.Table
import Winnow.Matching.Evaluation
/-! # What operators test

`Builtin.test` says when a value passes a built-in operator with an operand. An operand in a form that
the operator does not use is a fault. -/

namespace Winnow

/-- What tests depend on besides the value and the operand. -/
structure Terms where
  caseSensitive : Bool
  /-- decides equality with literals, if there is one -/
  comparator : Option Callable
  now : Moment
  functions : Functions

namespace Terms

variable (t : Terms)

/-- Flags of patterns that honour the case of the call. -/
def patternFlags : Nat := if t.caseSensitive then 0 else Pattern.ignoreCase

def fold (s : String) : List Char := (foldCase t.caseSensitive s).toList

end Terms

namespace Operand

def mismatch {α : Type} : Outcome α := .error (.fault .typeMismatch)

def asItems : Operand → Outcome (List Value)
  | items vs => .ok vs
  | _ => mismatch

def asText : Operand → Outcome String
  | value (.text s) => .ok s
  | _ => mismatch

end Operand

/-- The date of a date or moment. -/
def Value.date? : Value → Option Date
  | .date d => some d
  | .moment m => some m.date
  | _ => none

namespace Builtin

variable (t : Terms)

/-- Is the moment at most a duration before now (`past`) or after it? -/
def withinSpan (past : Bool) (actual : Value) (us : Int) : Outcome Bool :=
  match actual.moment? with
  | none => .ok false
  | some m => do
    let now ← t.now.nowFor m
    if past then
      let earliest ← Failure.ofOverflow (now.add? (-us))
      return earliest.compare m != some .gt && m.compare now != some .gt
    else if now.compare m == some .gt then return false
    else
      let latest ← Failure.ofOverflow (now.add? us)
      return m.compare latest != some .gt

/-- Is the age of the date within the range? -/
def withinAge (actual : Value) (range : AgeRange) : Outcome Bool :=
  match actual.date?, actual.moment? with
  | some birth, some m => do
    let now ← t.now.nowFor m
    let age := Value.int (birth.age now.date range.unit)
    return range.least.all (fun b => age.relate? .lt b != some true) &&
      range.most.all (fun b => age.relate? .gt b != some true)
  | _, _ => .ok false

/-- Applies a test to the point that a value denotes; other values fail. -/
def atPoint (actual : Value) (test : Point → Bool) : Outcome Bool := do
  return (← Point.ofValue actual).any test

def withinVicinity (v : Vicinity) (p : Point) : Bool :=
  let distance := p.distance v.center
  v.minDistance.all (fun least => !decide (distance < least)) && decide (distance ≤ v.maxDistance)

/-- Is the date of a value before or after the operand? -/
def dateRelation (r : Relation) (actual operand : Value) : Bool :=
  actual.date?.isSome && (Value.ordered? t.caseSensitive r actual operand).getD false

/-- Does the value contain the operand, as an item or as a part of its text? -/
def containsValue (actual operand : Value) : Bool :=
  match actual.items?, actual, operand with
  | some items, _, _ => items.any fun item => item.matchesValue t.caseSensitive operand
  | none, .text a, .text o => List.occursIn (t.fold o) (t.fold a)
  | _, _, _ => false

def isInItems (actual : Value) (items : List Value) : Bool :=
  items.any fun item => actual.matchesThrough t.caseSensitive item

def hasAll (actual : Value) (wanted : List Value) : Bool :=
  match actual.items? with
  | some items => wanted.all fun w => items.any fun item => item.matchesValue t.caseSensitive w
  | none => false

/-- Applies a test to a text and the operand's text, both folded; other values fail. -/
def onTexts (test : List Char → List Char → Bool) (actual : Value) (operand : Operand) :
    Outcome Bool :=
  match actual with
  | .text a => do return test (t.fold (← operand.asText)) (t.fold a)
  | _ => .ok false

def orderRelation? : Builtin → Option Relation
  | gt => some .gt
  | gte => some .ge
  | lt => some .lt
  | lte => some .le
  | _ => none

/-- The tests that need no pattern. -/
def plainTest (b : Builtin) (actual : Value) (operand : Operand) : Outcome Bool :=
  match b, operand with
  | eq, o => .ok (actual.matchesThrough t.caseSensitive o.toValue)
  | ne, o => .ok (!actual.matchesThrough t.caseSensitive o.toValue)
  | gt, .value o => .ok (Value.orderedThrough t.caseSensitive .gt o actual)
  | gte, .value o => .ok (Value.orderedThrough t.caseSensitive .ge o actual)
  | lt, .value o => .ok (Value.orderedThrough t.caseSensitive .lt o actual)
  | lte, .value o => .ok (Value.orderedThrough t.caseSensitive .le o actual)
  | isPresent, .value o => .ok (o.equal (.bool !actual.isMissing))
  | isIn, .items vs => .ok (isInItems t actual vs)
  | notIn, .items vs => .ok (!isInItems t actual vs)
  | contains, o => .ok (containsValue t actual o.toValue)
  | size, .value o =>
    .ok (actual.items?.any fun items => (Value.int items.length).equal o)
  | all, .items vs => .ok (hasAll t actual vs)
  | startsWith, o => onTexts t List.isPrefixOf actual o
  | endsWith, o => onTexts t List.isSuffixOf actual o
  | near, .vicinity v => atPoint actual (withinVicinity v)
  | geoBox, .box b => atPoint actual (·.inBox b.southwest b.northeast)
  | geoPolygon, .polygon vertices => atPoint actual (·.inPolygon vertices)
  | recent, .span us => withinSpan t true actual us
  | upcoming, .span us => withinSpan t false actual us
  | dayOfWeek, .weekdays days => .ok (actual.date?.any fun d => days.contains (d.dayOfWeek : Int))
  | timeOfDay, .hours start stop =>
    .ok (match actual with
      | .moment m => hourInRange m.hour start stop
      | _ => false)
  | age, .age range => withinAge t actual range
  | isWeekday, .value o => .ok (actual.date?.any fun d => o.equal (.bool d.isWeekday))
  | isWeekend, .value o => .ok (actual.date?.any fun d => o.equal (.bool d.isWeekend))
  | isBefore, .value o => .ok (dateRelation t .lt actual o)
  | isAfter, .value o => .ok (dateRelation t .gt actual o)
  | _, _ => Operand.mismatch

/-- Does a pattern match somewhere in the text? A compiled pattern keeps its flags, a source takes those
of the call. -/
def searchTest (actual : Value) (operand : Operand) : Evaluation Bool :=
  match actual, operand with
  | .text s, .value (.text source) =>
    .ask source t.patternFlags fun p => pure (p.any fun p => (p.search s).isSome)
  | .text s, .value (.pattern p) =>
    pure (match Pattern.compile p.source p.flags with
      | .ok p => (p.search s).isSome
      | .error _ => false)
  | _, _ => pure false

/-- Does the value pass? -/
def test (b : Builtin) (actual : Value) (operand : Operand) : Evaluation Bool :=
  match b with
  | regex | search => searchTest t actual operand
  | b => .done (b.plainTest t actual operand)

end Builtin

/-- Does the value pass an operator's rule? -/
def Rule.test (t : Terms) (r : Rule) (actual : Value) (operand : Operand) : Evaluation Bool :=
  match r with
  | .builtin b => b.test t actual operand
  | .custom c =>
    .done ((t.functions c (.operation actual operand.toValue t.caseSensitive)).map Value.truth)

/-- Does the value pass an operator? One without a rule is a fault. -/
def OperatorInfo.test (t : Terms) (o : OperatorInfo) (actual : Value) (operand : Operand) :
    Evaluation Bool :=
  match o.rule with
  | some r => r.test t actual operand
  | none => .done Operand.mismatch

end Winnow
