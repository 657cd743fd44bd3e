import Winnow.Yaml.Atom
import Winnow.Yaml.Grammar
import Winnow.Value.Order
/-! # The value of a document

Scalars have their values at once. A collection is made empty and waits until the collections met before
it are filled; so a document may refer to a collection from within, and the first fault met in this order
is the one that counts. Before a mapping is filled, the entries of other mappings under its merge keys are
taken over; its own entries win, and of several mappings the first. -/

namespace Winnow.Yaml

/-- A part of a value: a value without parts, or the collection of a node. -/
inductive Part
  | atom (v : Value)
  | collection (id : NodeId)
deriving Repr

/-- What a collection holds. -/
inductive Filling
  | list (items : List Part)
  | pairs (entries : List (Part × Part))
  | mapping (entries : List (Value × Part))
  | set (items : List Value)
deriving Repr

/-- Making of a value: the graph, the parts made of its nodes, the collections to be filled and those that
are. -/
structure Maker where
  graph : Graph
  made : Array (Option Part)
  waiting : List NodeId := []
  fillings : Array (Option Filling)

abbrev Make (α : Type) := StateT Maker (Except Failure) α

namespace Make

def mismatch {α : Type} : Make α := fun _ => failure .content

def lift {α : Type} (r : Outcome α) : Make α := fun m => r.map (·, m)

def graph : Make Graph := return (← get).graph

/-- Values that stand for mappings may do so for each other this many times. -/
def maxReferrals : Nat := 1000

/-- A bound for the steps of taking over entries. -/
def maxSteps : Nat := 1000000

/-- The text of a scalar, or of the value that stands for a mapping. -/
def scalarText (g : Graph) : Nat → NodeId → Outcome String
  | 0, _ => failure .endless
  | fuel + 1, id =>
    match g.shape id with
    | .scalar text => .ok text
    | .list _ => failure .content
    | .mapping entries =>
      match entries.find? fun e => g.tag e.1 = .value with
      | some (_, v) => scalarText g fuel v
      | none => failure .content

/-- The value of a node without parts. A timestamp has to be a scalar itself. -/
def atom (g : Graph) (id : NodeId) : Outcome Value :=
  let text := scalarText g maxReferrals id
  match g.tag id, g.shape id with
  | .null, _ => text.map fun _ => .null
  | .bool, _ => text.bind fun s => (Atom.bool s).map .bool
  | .int, _ => text.bind fun s => (Atom.int s).map .int
  | .float, _ => text.bind fun s => (Atom.float s).map .float
  | .binary, _ => text.bind fun s => (Atom.bytes s).map .bytes
  | .timestamp, .scalar s => Atom.timestamp s
  | .timestamp, _ => text.bind fun _ => .error (.fault .typeMismatch)
  | .text, _ => text.map .text
  | _, _ => failure .content

/-- Types of collections. -/
def isCollection : Tag → Bool
  | .list | .mapping | .set | .orderedMapping | .pairs => true
  | _ => false

/-- The part that a node makes; one node makes one part. -/
def part (id : NodeId) : Make Part := do
  let m ← get
  match m.made[id]? with
  | some (some p) => return p
  | _ =>
    let p ←
      if isCollection (m.graph.tag id) then do
        modify fun m => { m with waiting := m.waiting ++ [id] }
        pure (Part.collection id)
      else Part.atom <$> lift (atom m.graph id)
    modify fun m => { m with made := m.made.modify id fun _ => some p }
    return p

/-! ## Merging -/

mutual

/-- Takes over the entries under merge keys, from the `n`-th entry on; `merged` are those found so far. -/
def mergeFrom : Nat → NodeId → Nat → List (NodeId × NodeId) → Make Unit
  | 0, _, _, _ => fun _ => failure .endless
  | fuel + 1, id, n, merged => do
    let g ← graph
    let entries := (g.entries? id).getD []
    match entries[n]? with
    | none =>
      if merged.isEmpty then return
      modify fun m => { m with graph := m.graph.setShape id (.mapping (merged ++ entries)) }
    | some (key, value) =>
      match g.tag key with
      | .merge =>
        modify fun m => { m with graph := m.graph.setShape id (.mapping (entries.eraseIdx n)) }
        match g.shape value with
        | .mapping _ =>
          mergeFrom fuel value 0 []
          mergeFrom fuel id n (merged ++ ((← graph).entries? value).getD [])
        | .list items =>
          let found ← mergeItems fuel items
          mergeFrom fuel id n (merged ++ found.reverse.flatten)
        | .scalar _ => mismatch
      | .value =>
        modify fun m => { m with graph := m.graph.setTag key .text }
        mergeFrom fuel id (n + 1) merged
      | _ => mergeFrom fuel id (n + 1) merged
termination_by structural fuel => fuel

/-- The entries of several mappings. -/
def mergeItems : Nat → List NodeId → Make (List (List (NodeId × NodeId)))
  | 0, _ => fun _ => failure .endless
  | _ + 1, [] => return []
  | fuel + 1, id :: ids => do
    if ((← graph).entries? id).isNone then mismatch
    mergeFrom fuel id 0 []
    let entries := ((← graph).entries? id).getD []
    return entries :: (← mergeItems fuel ids)
termination_by structural fuel => fuel

end

/-! ## Filling -/

/-- Sets an entry: an equal key keeps its place and takes the new part. -/
def insert (entries : List (Value × Part)) (key : Value) (p : Part) : List (Value × Part) :=
  match entries with
  | [] => [(key, p)]
  | (k, q) :: rest => if k.equal key then (k, p) :: rest else (k, q) :: insert rest key p

/-- The entries of a mapping, whose keys are values without parts. -/
def keyedParts (id : NodeId) : Make (List (Value × Part)) := do
  if ((← graph).entries? id).isNone then mismatch
  mergeFrom maxSteps id 0 []
  let entries := ((← graph).entries? id).getD []
  entries.foldlM (fun found (key, value) => do
    match ← part key with
    | .atom k => return insert found k (← part value)
    | .collection _ => mismatch) []

/-- The one entry of a mapping. -/
def onlyEntry (id : NodeId) : Make (Part × Part) := do
  match (← graph).entries? id with
  | some [(key, value)] =>
    let k ← part key
    return (k, ← part value)
  | _ => mismatch

/-- The filling of a collection. -/
def filling (id : NodeId) : Make Filling := do
  let g ← graph
  let items : Make (List NodeId) :=
    match g.items? id with
    | some items => return items
    | none => mismatch
  match g.tag id with
  | .mapping => return .mapping (← keyedParts id)
  | .set => return .set ((← keyedParts id).map (·.1))
  | .list => return .list (← (← items).mapM part)
  | _ => return .pairs (← (← items).mapM onlyEntry)

/-- Fills the waiting collections in the order in which they were met. -/
def fillAll : Nat → Make Unit
  | 0 => pure ()
  | fuel + 1 => do
    match (← get).waiting with
    | [] => return
    | id :: rest =>
      modify fun m => { m with waiting := rest }
      let f ← filling id
      modify fun m => { m with fillings := m.fillings.modify id fun _ => some f }
      fillAll fuel

end Make

/-- The value of a document, and whether it contains itself; it is cut off where it does. -/
structure Content where
  value : Value
  isEndless : Bool
deriving Repr

namespace Content

/-- A value of contents, which contains itself if one of them does. -/
def join (contents : List Content) (f : List Value → Value) : Content :=
  ⟨f (contents.map (·.value)), contents.any (·.isEndless)⟩

/-- The content of a part below the collections `above`. -/
def ofPart (fillings : Array (Option Filling)) : Nat → List NodeId → Part → Content
  | _, _, .atom v => ⟨v, false⟩
  | 0, _, .collection _ => ⟨.null, true⟩
  | fuel + 1, above, .collection id =>
    if above.contains id then ⟨.null, true⟩
    else
      let inner (p : Part) : Content := ofPart fillings fuel (id :: above) p
      match (fillings[id]?).join with
      | some (.list items) => join (items.map inner) .list
      | some (.set items) => ⟨.set items, false⟩
      | some (.mapping entries) =>
        join (entries.map fun e => inner e.2) fun values => .object ((entries.map (·.1)).zip values)
      | some (.pairs entries) =>
        join (entries.map fun e => join [inner e.1, inner e.2] .tuple) .list
      | none => ⟨.null, false⟩

/-- The content of a graph below its root; null without one. -/
def ofGraph (graph : Graph) (root : Option NodeId) : Outcome Content :=
  match root with
  | none => .ok ⟨.null, false⟩
  | some root => do
    let size := graph.size
    let maker := { graph, made := Array.replicate size none, fillings := Array.replicate size none }
    let (p, m) ← (Make.part root).run maker
    let (_, m) ← (Make.fillAll (size + 1)).run m
    return ofPart m.fillings (size + 1) [] p

/-- Newlines for carriage returns, alone or before newlines. -/
def unifyBreaks : List Char → List Char
  | '\r' :: '\n' :: cs => '\n' :: unifyBreaks cs
  | '\r' :: cs => '\n' :: unifyBreaks cs
  | c :: cs => c :: unifyBreaks cs
  | [] => []

/-- The characters that documents hold: no control characters but tabs and breaks. -/
def isPrintable (c : Char) : Bool :=
  let n := c.toNat
  c == '\t' || c == '\n' || (0x20 ≤ n && n ≤ 0x7e) || n == 0x85 || (0xa0 ≤ n && n ≤ 0xfffd) || 0x10000 ≤ n

/-- The content of a text, which holds one document at most. -/
def ofText (text : String) : Outcome Content := do
  let cs := unifyBreaks text.toList
  if !cs.all isPrintable then failure .character
  let (graph, root) ← Graph.ofChars cs
  ofGraph graph root

end Content
end Winnow.Yaml
