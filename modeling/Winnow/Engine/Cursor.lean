import Winnow.Engine.Filter
/-! # Cursors

A cursor reads on where it stopped: it looks at no more records than it is asked for, at the data as it
is by then and with the table as it is by then. Once it has come to the end of the data, or a test has
failed, it stays at its end. -/

namespace Winnow

structure Cursor where
  options : Options
  node : Node
  /-- how many records it may still hand out -/
  remaining : Option Nat
  /-- how many records it has looked at -/
  position : Nat := 0
  isOver : Bool := false

namespace Cursor

/-- A cursor before its first record. -/
def start (o : Options) (node : Node) : Cursor := { options := o, node, remaining := o.limit }

/-- The cursor after a scan in which a number of records was wanted. -/
def after (c : Cursor) (wanted : Option Nat) (r : Scan PatternStore Value) : Cursor :=
  { c with
    remaining := c.remaining.map (· - r.found.length)
    position := c.position + r.read
    isOver := r.failure.isSome || r.isShort wanted }

/-- Reads on until a number of records match, or to the end. -/
def next (c : Cursor) (count : Option Nat) (records : List Value) (e : Engine) :
    Outcome (List Value) × Cursor × Engine :=
  if c.isOver then (.ok [], c, e)
  else
    let wanted := Engine.least count c.remaining
    let r := e.scanOf c.options c.node wanted (records.drop c.position)
    (r.outcome, c.after wanted r, e.afterScan r)

/-- Reads to the end, or until a number of records match; the cursor is given up. -/
def take (c : Cursor) (count : Option Nat) (records : List Value) : Request (List Value) := fun e =>
  match c.next count records e with
  | (r, _, e) => (r, e)

end Cursor

namespace Engine

/-- Sorting needs all records, so a cursor has no order. -/
def rejectOrder (o : Options) : Outcome Unit :=
  if o.orderBy.isEmpty then .ok ()
  else .error (.options .lazyOrder (.text "order_by") (.list (o.orderBy.map (·.toValue))))

/-- A cursor on the records that match. -/
def openCursor (d : Data) (q : Query) : Request (Cursor × List Value) := do
  let (o, node, records) ← prepare d q
  rejectOrder o
  return (.start o node, records)

/-- A cursor on the records that match of data that arrives. -/
def openArriving (d : Data) (q : Query) : Request (Cursor × List Value) := do
  let (o, node) ← resolve q
  let records ← d.arriving
  rejectOrder o
  return (.start o node, records)

/-- The records that match, read with a cursor. -/
def filterLazily (d : Data) (q : Query) (count : Option Nat) : Request (List Value) := do
  let (cursor, records) ← openCursor d q
  cursor.take count records

/-- The records that match as they arrive. -/
def filterArriving (d : Data) (q : Query) : Request (List Value) := do
  let (cursor, records) ← openArriving d q
  cursor.take none records

/-- The records that match in chunks, read with a cursor. -/
def filterChunksLazily (d : Data) (q : Query) (size : Value) : Request (List (List Value)) := do
  let size ← readCount "chunk_size" size
  let result ← filterLazily d q none
  Chunks.split size result

end Engine
end Winnow
