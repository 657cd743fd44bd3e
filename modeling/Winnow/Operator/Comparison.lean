import Winnow.Functions
import Winnow.Time.Now
/-! # Comparing values with operands

Values of different families are never equal: a text is no number and a flag is no number. Texts are
compared in lower case unless case matters. A list is compared item by item with an operand that is no
list. -/

namespace Winnow

/-- Families of values that may be equal to one another. -/
inductive ValueFamily
  | null | flag | number | text | moment | date | other
deriving DecidableEq, Repr

namespace Value

def family : Value → ValueFamily
  | null => .null
  | bool _ => .flag
  | int _ | float _ => .number
  | text _ => .text
  | moment _ => .moment
  | date _ => .date
  | _ => .other

/-- Equality with an operand; the missing value equals null. -/
def matchesValue (caseSensitive : Bool) (actual expected : Value) : Bool :=
  match actual, expected with
  | missing, e => e.isNull
  | text a, text e => foldCase caseSensitive a == foldCase caseSensitive e
  | a, e => a.family == e.family && a.equal e

/-- Is the value a list or tuple? -/
def isArray (v : Value) : Bool := v.items?.isSome

/-- Equality of the value, or of some item when only the value is a list. -/
def matchesThrough (caseSensitive : Bool) (actual expected : Value) : Bool :=
  actual.matchesValue caseSensitive expected ||
    (!expected.isArray &&
      (actual.items?.getD []).any fun item => item.matchesValue caseSensitive expected)

/-- Do two values with an order between them stand in a relation? Dates are midnights beside moments;
moments with an offset are not ordered against those without one. -/
def ordered? (caseSensitive : Bool) (r : Relation) (a b : Value) : Option Bool :=
  match a, b with
  | text a, text b => relate? r (.text (foldCase caseSensitive a)) (.text (foldCase caseSensitive b))
  | date _, date _ | moment _, moment _ => relate? r a b
  | date d, moment _ => relate? r (.moment d.toMoment) b
  | moment _, date d => relate? r a (.moment d.toMoment)
  | a, b => if a.family == .number && b.family == .number then relate? r a b else none

/-- Does the value, or some item at any depth of lists, stand in a relation to the operand? -/
def orderedThrough (caseSensitive : Bool) (r : Relation) (operand : Value) : Value → Bool
  | list items => anyItem items
  | tuple items => anyItem items
  | actual => (ordered? caseSensitive r actual operand).getD false
where
  anyItem : List Value → Bool
  | [] => false
  | v :: vs => orderedThrough caseSensitive r operand v || anyItem vs

end Value

/-- Is the first list a part of the second? -/
def List.occursIn {α : Type} [BEq α] (part : List α) : List α → Bool
  | [] => part.isEmpty
  | x :: xs => part.isPrefixOf (x :: xs) || List.occursIn part xs

end Winnow
