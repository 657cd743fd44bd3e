import Winnow.Value.Order
import Winnow.Text.Case
import Winnow.Failure
/-! # Sort keys

A sort key is a path and a direction. It is written as a field name, a pair of field and direction, or
a mapping; several keys are written as a list. Only a tuple of two at the top is read as a pair: a list
there is always a list of keys. -/

namespace Winnow

inductive Direction
  | ascending | descending
deriving DecidableEq, Repr

namespace Direction

def name : Direction → String
  | ascending => "asc"
  | descending => "desc"

/-- The direction of a name, whatever its case. -/
def ofName? (s : String) : Option Direction :=
  [ascending, descending].find? (·.name == Text.lowercase s)

end Direction

structure SortKey where
  field : String
  direction : Direction := .ascending
deriving DecidableEq, Repr

namespace SortKey

def toValue (k : SortKey) : Value :=
  .ofPairs [("field", .text k.field), ("direction", .text k.direction.name)]

def reject {α : Type} (e : OptionError) (v : Value) : Outcome α :=
  .error (.options e (.text "order_by") v)

def readField : Value → Outcome String
  | .text s => if s.isEmpty then reject (.sortField (.text s)) (.text s) else .ok s
  | v => reject (.sortField v) v

def direction? : Value → Option Direction
  | .text s => Direction.ofName? s
  | _ => none

def readDirection (v : Value) : Outcome Direction :=
  match direction? v with
  | some d => .ok d
  | none => reject (.direction v) v

/-- The field and direction of a list or tuple that is a pair of them. -/
def pair? (v : Value) : Option (String × Direction) :=
  match v.items? with
  | some [.text field, direction] => (direction? direction).map fun d => (field, d)
  | _ => none

/-- One sort key. -/
def ofValue (v : Value) : Outcome SortKey :=
  match v with
  | .text _ => (readField v).map fun field => ⟨field, .ascending⟩
  | .object entries =>
    match Value.get? entries "field" with
    | none => reject .sortMapping v
    | some field => do
      let field ← readField field
      let direction ← readDirection ((Value.get? entries "direction").getD (.text Direction.ascending.name))
      return ⟨field, direction⟩
  | v =>
    match pair? v with
    | some (field, direction) => (readField (.text field)).map fun field => ⟨field, direction⟩
    | none => reject (.sortKey v) v

/-- The items of a value that is a list of sort keys. -/
def listed? (v : Value) : Option (List Value) :=
  match v with
  | .list items => some items
  | .tuple items => if (pair? v).isSome then none else some items
  | _ => none

/-- The sort keys of an order. -/
def readAll (v : Value) : Outcome (List SortKey) :=
  if v.isNull then .ok []
  else
    match listed? v with
    | some [] => reject .emptyOrder v
    | some items => items.mapM ofValue
    | none => (ofValue v).map ([·])

/-! ## Keys as such

Callers may also give sort keys as such, alone or as items beside values. -/

/-- An item of an order: a sort key as such, or a value that is read as one. -/
inductive Item
  | key (k : SortKey)
  | value (v : Value)

/-- What a caller gives as an order. -/
inductive Given
  | item (i : Item)
  | list (items : List Item)
  | tuple (items : List Item)

/-- The items of an order, of which a single one is its own. -/
def Given.items : Given → List Item
  | item i => [i]
  | list items | tuple items => items

def Item.read : Item → Outcome SortKey
  | key k => .ok k
  | value v => ofValue v

/-- The values that items are, if no sort key as such is among them. -/
def Item.values? (items : List Item) : Option (List Value) :=
  items.mapM fun
    | key _ => none
    | value v => some v

/-- The sort keys of an order that a caller gives. A pair is one of values. -/
def Given.read (given : Given) : Outcome (List SortKey) :=
  match given with
  | item (.key k) => .ok [k]
  | item (.value v) => readAll v
  | list items =>
    match Item.values? items with
    | some values => readAll (.list values)
    | none => items.mapM Item.read
  | tuple items =>
    match Item.values? items with
    | some values => readAll (.tuple values)
    | none => items.mapM Item.read

end SortKey
end Winnow
