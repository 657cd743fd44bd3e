import Winnow.Yaml.Graph
import Winnow.Yaml.Lexer
/-! # The graph of a document

The grammar says which tokens form nodes. A node may have an anchor and a tag before its content. Block
collections are told by indentation, flow collections by brackets; entries of a mapping may lack their key
or value, which is null then. -/

namespace Winnow.Yaml

/-- Reading of a graph: the tokens to come, the nodes so far, the nodes with anchors, and what the handles
of tags stand for. -/
structure Composer where
  lexer : Lexer
  graph : Graph := #[]
  anchors : List (String × NodeId) := []
  handles : List (String × String) := []

abbrev Compose (α : Type) := StateT Composer (Except Failure) α

namespace Compose

def malformed {α : Type} : Compose α := fun _ => failure .arrangement

/-- The next token, which stays. -/
def peek : Compose Token := fun c => do
  let (t, lexer) ← c.lexer.peek
  return (t, { c with lexer })

/-- Takes the token that was looked at. -/
def drop : Compose Unit := modify fun c => { c with lexer := c.lexer.drop }

def next : Compose Token := do
  let t ← peek
  drop
  return t

/-- Takes a token, if it comes next. -/
def skip? (t : Token) : Compose Bool := do
  if (← peek) = t then
    drop
    return true
  else return false

/-- Takes a token, which has to come next. -/
def expect (t : Token) : Compose Unit := do
  if !(← skip? t) then malformed

/-- A new node; its anchor refers to it from now on. -/
def add (anchor : Option String) (tag : Tag) (shape : Shape) : Compose NodeId := fun c => do
  if anchor.any fun name => (c.anchors.lookup name).isSome then failure .reference
  let id := c.graph.size
  let anchors := (anchor.toList.map fun name => (name, id)) ++ c.anchors
  return (id, { c with graph := c.graph.push ⟨tag, shape⟩, anchors })

/-- The node that stands where nothing is written. -/
def empty : Compose NodeId := add none .null (.scalar "")

def setShape (id : NodeId) (shape : Shape) : Compose Unit :=
  modify fun c => { c with graph := c.graph.setShape id shape }

/-- The node that an alias refers to. -/
def target (name : String) : Compose NodeId := fun c =>
  match c.anchors.lookup name with
  | some id => .ok (id, c)
  | none => failure .reference

/-! ## Properties -/

structure Properties where
  anchor : Option String := none
  tag : Option TagText := none

/-- An anchor and a tag in either order. -/
def properties : Compose Properties := do
  match ← peek with
  | .anchor name =>
    drop
    match ← peek with
    | .tag t =>
      drop
      return ⟨some name, some t⟩
    | _ => return ⟨some name, none⟩
  | .tag t =>
    drop
    match ← peek with
    | .anchor name =>
      drop
      return ⟨some name, some t⟩
    | _ => return ⟨none, some t⟩
  | _ => return {}

/-- The name of a tag; the tag `!` alone counts as none. -/
def tagName (t : TagText) : Compose String := do
  match t.handle with
  | none => return t.suffix
  | some handle =>
    match (← get).handles.lookup handle with
    | some meaning => return meaning ++ t.suffix
    | none => malformed

/-- The type of a collection or of an empty node. -/
def tagOr (plain : Tag) (name : Option String) : Tag :=
  match name with
  | none => plain
  | some name => if name = "!" then plain else .ofName name

/-- The type of a scalar: without a tag, a plain one is looked at and another one is text. -/
def scalarTag (text : String) (isPlain : Bool) (name : Option String) : Tag :=
  tagOr (if isPlain || name.isSome then .ofPlain text else .text) name

/-! ## Nodes -/

/-- Where a node stands: between brackets, in a block, or as a part of a block mapping, where a list need
not be indented. -/
inductive Position
  | flow | block | entry
deriving DecidableEq, Repr

/-- Nodes that are nested deeper cannot be read. -/
def maxDepth : Nat := 490

mutual

/-- The node at hand. -/
def node : Nat → Nat → Position → Compose NodeId
  | 0, _, _ => fun _ => failure .endless
  | fuel + 1, depth, position => do
    if maxDepth < depth then fun _ => failure .endless
    if let .reference name := ← peek then
      drop
      return ← target name
    let p ← properties
    let name ← p.tag.mapM tagName
    match ← peek, position with
    | .entry, .entry => block fuel depth p.anchor (tagOr .list name) false
    | .scalar text isPlain, _ =>
      drop
      add p.anchor (scalarTag text isPlain name) (.scalar text)
    | .flowListStart, _ =>
      drop
      let id ← add p.anchor (tagOr .list name) (.list [])
      setShape id (.list (← flowItems fuel (depth + 1) true))
      return id
    | .flowMappingStart, _ =>
      drop
      let id ← add p.anchor (tagOr .mapping name) (.mapping [])
      setShape id (.mapping (← flowEntries fuel (depth + 1) true))
      return id
    | .listStart, .block | .listStart, .entry =>
      drop
      block fuel depth p.anchor (tagOr .list name) true
    | .mappingStart, .block | .mappingStart, .entry =>
      drop
      let id ← add p.anchor (tagOr .mapping name) (.mapping [])
      setShape id (.mapping (← blockEntries fuel (depth + 1)))
      return id
    | _, _ =>
      if p.anchor.isNone && name.isNone then malformed
      else add p.anchor (tagOr .null name) (.scalar "")
termination_by structural fuel => fuel

/-- A list in a block, which is indented or not. -/
def block : Nat → Nat → Option String → Tag → Bool → Compose NodeId
  | 0, _, _, _, _ => fun _ => failure .endless
  | fuel + 1, depth, anchor, tag, indented => do
    let id ← add anchor tag (.list [])
    setShape id (.list (← blockItems fuel (depth + 1) indented))
    return id
termination_by structural fuel => fuel

/-- Items behind dashes. An indented list ends with its indentation. -/
def blockItems : Nat → Nat → Bool → Compose (List NodeId)
  | 0, _, _ => fun _ => failure .endless
  | fuel + 1, depth, indented => do
    if ← skip? .entry then
      let t ← peek
      let isEmpty := t = .entry || t = .blockEnd || (!indented && (t = .key || t = .value))
      let item ← if isEmpty then empty else node fuel depth .block
      return item :: (← blockItems fuel depth indented)
    if indented then expect .blockEnd
    return []
termination_by structural fuel => fuel

/-- Keys and values of a block mapping. -/
def blockEntries : Nat → Nat → Compose (List (NodeId × NodeId))
  | 0, _ => fun _ => failure .endless
  | fuel + 1, depth => do
    if ← skip? .key then
      let key ← blockPart fuel depth
      let value ← if ← skip? .value then blockPart fuel depth else empty
      return (key, value) :: (← blockEntries fuel depth)
    expect .blockEnd
    return []
termination_by structural fuel => fuel

/-- A key or a value of a block mapping. -/
def blockPart : Nat → Nat → Compose NodeId
  | 0, _ => fun _ => failure .endless
  | fuel + 1, depth => do
    let t ← peek
    if t = .key || t = .value || t = .blockEnd then empty else node fuel depth .entry
termination_by structural fuel => fuel

/-- Items between brackets. An item with a colon is a mapping of one entry. -/
def flowItems : Nat → Nat → Bool → Compose (List NodeId)
  | 0, _, _ => fun _ => failure .endless
  | fuel + 1, depth, isFirst => do
    if ← skip? .flowListEnd then return []
    if !isFirst then expect .flowEntry
    let t ← peek
    if t = .flowListEnd then
      drop
      return []
    let item ← if t = .key then pair fuel depth else node fuel depth .flow
    return item :: (← flowItems fuel depth false)
termination_by structural fuel => fuel

/-- A mapping of one entry, without brackets of its own. -/
def pair : Nat → Nat → Compose NodeId
  | 0, _ => fun _ => failure .endless
  | fuel + 1, depth => do
    let id ← add none .mapping (.mapping [])
    drop
    let t ← peek
    let key ←
      if t = .value || t = .flowEntry || t = .flowListEnd then empty
      else node fuel (depth + 1) .flow
    let value ← flowValue fuel (depth + 1) .flowListEnd
    setShape id (.mapping [(key, value)])
    return id
termination_by structural fuel => fuel

/-- The value behind a colon, if there is one. -/
def flowValue : Nat → Nat → Token → Compose NodeId
  | 0, _, _ => fun _ => failure .endless
  | fuel + 1, depth, closing => do
    if !(← skip? .value) then return ← empty
    let t ← peek
    if t = .flowEntry || t = closing then empty else node fuel depth .flow
termination_by structural fuel => fuel

/-- Entries between braces. -/
def flowEntries : Nat → Nat → Bool → Compose (List (NodeId × NodeId))
  | 0, _, _ => fun _ => failure .endless
  | fuel + 1, depth, isFirst => do
    if ← skip? .flowMappingEnd then return []
    if !isFirst then expect .flowEntry
    if ← skip? .flowMappingEnd then return []
    let entry ←
      if ← skip? .key then
        let t ← peek
        let key ←
          if t = .value || t = .flowEntry || t = .flowMappingEnd then empty
          else node fuel depth .flow
        pure (key, ← flowValue fuel depth .flowMappingEnd)
      else
        let key ← node fuel depth .flow
        pure (key, ← empty)
    return entry :: (← flowEntries fuel depth false)
termination_by structural fuel => fuel

end

/-! ## Documents -/

/-- The handles that every document knows. -/
def commonHandles : List (String × String) := [("!", "!"), ("!!", Tag.common)]

/-- Reads directives: one version at most, and handles that differ. -/
def directives : Nat → Bool → List (String × String) → Compose Unit
  | 0, _, _ => malformed
  | fuel + 1, hasVersion, handles => do
    match ← peek with
    | .directive d =>
      drop
      match d with
      | .version major _ =>
        if hasVersion || major ≠ 1 then malformed
        directives fuel true handles
      | .handle name meaning =>
        if (handles.lookup name).isSome then malformed
        directives fuel hasVersion (handles ++ [(name, meaning)])
      | .reserved => directives fuel hasVersion handles
    | _ => modify fun c => { c with handles := handles ++ commonHandles }

/-- The directives and the mark at the start of a document. -/
def documentStart (fuel : Nat) : Compose Unit := do
  directives fuel false []
  expect .documentStart

def isDocumentBound : Token → Bool
  | .directive _ | .documentStart | .documentEnd | .finish => true
  | _ => false

/-- Passes over marks at the end of documents. -/
def skipEnds : Nat → Compose Unit
  | 0 => pure ()
  | fuel + 1 => do if ← skip? .documentEnd then skipEnds fuel

/-- The only document of a text; there may be none. The mark at its start is needed behind directives. -/
def document (fuel : Nat) : Compose (Option NodeId) := do
  let root ← match ← peek with
    | .finish => return none
    | .directive _ | .documentStart =>
      documentStart fuel
      if isDocumentBound (← peek) then empty else node fuel 1 .block
    | _ =>
      modify fun c => { c with handles := commonHandles }
      node fuel 1 .block
  skipEnds fuel
  if (← peek) = .finish then return some root
  documentStart fuel
  fun _ => failure .reference

end Compose

/-- The graph of the document in a text, and its root. -/
def Graph.ofChars (cs : List Char) : Outcome (Graph × Option NodeId) := do
  let (root, c) ← Compose.document (8 * cs.length + 8) { lexer := .ofChars cs }
  return (c.graph, root)

end Winnow.Yaml
