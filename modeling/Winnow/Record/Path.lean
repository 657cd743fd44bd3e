import Winnow.Record.Attribute
import Winnow.Number.Read
/-! # Paths into records

A path is a text of segments between dots. A segment is a key of a mapping, a place in a list or tuple
(counted from the end when negative), or the name of an attribute. A path that leads nowhere yields
the missing value. -/

namespace Winnow.Path

/-- The parts of a text between separators; one part more than there are separators. -/
def splitOn (separator : Char) : List Char → List (List Char)
  | [] => [[]]
  | c :: cs =>
    if c = separator then [] :: splitOn separator cs
    else
      match splitOn separator cs with
      | [] => [[c]]
      | part :: parts => (c :: part) :: parts

def segments (path : String) : List String := (splitOn '.' path.toList).map String.ofList

/-- The item at a place; a negative place counts from the end. -/
def item? (items : List Value) (place : Int) : Option Value :=
  if 0 ≤ place then items[place.toNat]?
  else if items.length < place.natAbs then none
  else items[items.length - place.natAbs]?

/-- What a segment leads to. -/
def step (v : Value) (segment : String) : Value :=
  match v with
  | .object entries => (Value.get? entries segment).getD .missing
  | .list items | .tuple items => ((readIndex? segment).bind (item? items)).getD .missing
  | .null | .missing | .text _ | .bytes _ | .int _ | .float _ | .bool _ => .missing
  | v => (Attribute.get? v segment).getD .missing

/-- What a list of segments leads to. -/
def resolve (record : Value) (segments : List String) : Value := segments.foldl step record

/-- What a path leads to; the empty path leads to the record itself. -/
def get (record : Value) (path : String) : Value :=
  if path.isEmpty then record else resolve record (segments path)

end Winnow.Path
