import Winnow.Order.SortKey
import Winnow.Record.Path
/-! # Sorting records

Records are sorted by the values that paths lead to; records equal on every key keep their order. Null
and missing values come last in either direction. Values of different kinds are ordered by kind,
values of one kind that have no order of their own by their text. -/

namespace Winnow

namespace Value

/-- Rank of a value's kind. -/
def sortRank : Value → Nat
  | int _ | float _ => 0
  | text _ => 1
  | moment _ => 2
  | date _ => 3
  | bool _ => 4
  | _ => 5

def isAbsent (v : Value) : Bool := v.isNull || v.isMissing

/-- Order of two values of one kind. -/
def compareAlike (a b : Value) : Ordering :=
  match a.relate? .lt b with
  | some true => .lt
  | some false => if a.relate? .gt b == some true then .gt else .eq
  | none => compare a.display b.display

/-- The value as it is sorted. -/
def sortForm (caseSensitive : Bool) : Value → Value
  | text s => if caseSensitive then text s else text (Text.lowercase s)
  | v => v

/-- Order of two values that are there. -/
def comparePresent (caseSensitive : Bool) (a b : Value) : Ordering :=
  if a.sortRank = b.sortRank then compareAlike (a.sortForm caseSensitive) (b.sortForm caseSensitive)
  else compare a.sortRank b.sortRank

/-- Order of two values in a direction. -/
def compareIn (direction : Direction) (caseSensitive : Bool) (a b : Value) : Ordering :=
  match a.isAbsent, b.isAbsent with
  | true, true => .eq
  | true, false => .gt
  | false, true => .lt
  | false, false =>
    match direction with
    | .ascending => comparePresent caseSensitive a b
    | .descending => (comparePresent caseSensitive a b).swap

end Value

/-- Order of two records by the first key on which they differ. -/
def SortKey.compareRecords (caseSensitive : Bool) : List SortKey → Value → Value → Ordering
  | [], _, _ => .eq
  | k :: ks, a, b =>
    (Value.compareIn k.direction caseSensitive (Path.get a k.field) (Path.get b k.field)).then
      (compareRecords caseSensitive ks a b)

/-- The records in order. -/
def sortRecords (keys : List SortKey) (caseSensitive : Bool) (records : List Value) : List Value :=
  if keys.isEmpty then records
  else records.mergeSort fun a b => SortKey.compareRecords caseSensitive keys a b != .gt

/-- The items before a place, which counts from the end when it is negative. -/
def takeUpTo (limit : Int) (records : List Value) : List Value :=
  if 0 ≤ limit then records.take limit.toNat else records.take (records.length - limit.natAbs)

/-- Sorts, then keeps the records up to a limit. -/
def arrange (keys : List SortKey) (limit : Option Int) (caseSensitive : Bool) (records : List Value) :
    List Value :=
  let sorted := sortRecords keys caseSensitive records
  match limit with
  | some n => takeUpTo n sorted
  | none => sorted

end Winnow
