import Winnow.Engine.Cursor
/-! # Sessions

A session holds an engine, data under names and open cursors. Two names may stand for one collection:
what is done to it under one name shows under the other, and to cursors that are open on it. -/

namespace Winnow

structure Session where
  engine : Engine
  /-- data by identity -/
  objects : List (Nat × Value) := []
  names : List (String × Nat) := []
  cursors : List (String × Cursor × Data) := []

namespace Session

/-- An action on a session; what it did before it failed stays done. -/
abbrev Action (α : Type) := Session → Outcome α × Session

variable {α : Type}

/-- A request to the session's engine. -/
def request (r : Request α) : Action α := fun s =>
  match r s.engine with
  | (x, engine) => (x, { s with engine })

/-- The identity of the data under a name. -/
def identity (s : Session) (name : String) : Nat := (s.names.lookup name).getD 0

def object (s : Session) (identity : Nat) : Value := (s.objects.lookup identity).getD .null

def setObject (s : Session) (identity : Nat) (v : Value) : Session :=
  { s with objects := (identity, v) :: s.objects.filter (·.1 != identity) }

def setName (s : Session) (name : String) (identity : Nat) : Session :=
  { s with names := (name, identity) :: s.names.filter (·.1 != name) }

/-- An identity that no data has. -/
def freshIdentity (s : Session) : Nat := (s.objects.map (·.1)).foldl max 0 + 1

/-- Adds data under a name. -/
def define (s : Session) (name : String) (v : Value) : Session :=
  (s.setObject s.freshIdentity v).setName name s.freshIdentity

def ofData (engine : Engine) (data : List (String × Value)) : Session :=
  data.foldl (fun s e => s.define e.1 e.2) { engine }

/-- The data under a name. -/
def data (s : Session) (name : String) : Data := .value (s.identity name) (s.object (s.identity name))

/-- What a stream over a value hands out. -/
def streamed : Value → List Value
  | .list items | .tuple items | .set items => items
  | .text s => s.toList.map fun c => .text c.toString
  | .bytes b => b.map fun x => .int x.toNat
  | .object entries => entries.map (·.1)
  | _ => []

/-- A stream over the data under a name. -/
def stream (s : Session) (kind : StreamKind) (name : String) : Data :=
  .stream kind (streamed (s.object (s.identity name)))

/-- The data as it is by now. -/
def current (s : Session) : Data → Data
  | .value identity _ => .value identity (s.object identity)
  | d => d

/-- Changes the list under a name. -/
def onList (name : String) (f : List Value → Outcome (α × List Value)) : Action α := fun s =>
  match s.object (s.identity name) with
  | .list items =>
    match f items with
    | .ok (a, items) => (.ok a, s.setObject (s.identity name) (.list items))
    | .error e => (.error e, s)
  | _ => (.error (.fault .noAttribute), s)

def append (name : String) (v : Value) : Action Unit :=
  onList name fun items => .ok ((), items ++ [v])

/-- Takes the last item off a list. -/
def pop (name : String) : Action Value :=
  onList name fun items =>
    match items.getLast? with
    | some last => .ok (last, items.dropLast)
    | none => .error (.fault .noItem)

/-- Replaces the item at a place, which counts from the end when it is negative. -/
def replace (name : String) (place : Int) (v : Value) : Action Unit :=
  onList name fun items =>
    let place := if place < 0 then place + items.length else place
    if 0 ≤ place ∧ place < items.length then .ok ((), items.set place.toNat v)
    else .error (.fault .noItem)

/-- Gives data a second name. -/
def share (name second : String) : Action Unit := fun s => (.ok (), s.setName second (s.identity name))

/-- Gives a copy of data a name. -/
def copy (name second : String) : Action Unit := fun s =>
  (.ok (), s.define second (s.object (s.identity name)))

def setCursor (s : Session) (id : String) (c : Cursor) (d : Data) : Session :=
  { s with cursors := (id, c, d) :: s.cursors.filter (·.1 != id) }

/-- Opens a cursor on the records that match. -/
def openCursor (id : String) (d : Data) (q : Query) : Action Unit := fun s =>
  match request (Engine.openCursor d q) s with
  | (.ok (c, _), s) => (.ok (), s.setCursor id c d)
  | (.error e, s) => (.error e, s)

/-- The next records of an open cursor. -/
def next (id : String) (count : Nat) : Action (List Value) := fun s =>
  match s.cursors.lookup id with
  | none => (.error (.fault .noKey), s)
  | some (c, d) =>
    match c.next (some count) (((s.current d).records?).getD []) s.engine with
    | (r, c, engine) => (r, { s with engine }.setCursor id c d)

end Session
end Winnow
