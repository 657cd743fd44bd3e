import Winnow.Yaml.ScalarText
import Winnow.Yaml.Property
/-! # Tokens from text

A key may be told only by the colon behind it. So a token that could start a key is remembered by its
number among all tokens; when the colon comes, the tokens that announce a key go before it. Tokens are
handed out once no token before them can still turn out to be a key. A key stands on one line, within
`maxKeyLength` characters. -/

namespace Winnow.Yaml

def maxKeyLength : Nat := 1024

/-- A token that may turn out to start a key. It is required to be one where only a key can stand. -/
structure PossibleKey where
  level : Int
  number : Nat
  required : Bool
  index : Nat
  line : Nat
  column : Nat
deriving Repr

/-- Reading of a document: the tokens not yet handed out, how many were, the brackets and indentations
that are open, and what may become a key. -/
structure Lexer where
  place : Place
  /-- a bound for the number of steps that are left -/
  steps : Nat
  finished : Bool := false
  tokens : List Token := []
  taken : Nat := 0
  level : Int := 0
  indent : Int := -1
  outer : List Int := []
  allowsKey : Bool := true
  keys : List PossibleKey := []
deriving Repr

namespace Lexer

def ofChars (cs : List Char) : Lexer := { place := ⟨cs, 0, 0, 0⟩, steps := cs.length + 2 }

def inFlow (l : Lexer) : Bool := l.level != 0

def emit (l : Lexer) (t : Token) : Lexer := { l with tokens := l.tokens ++ [t] }

/-- Hands out a token for some characters. -/
def emitMark (l : Lexer) (width : Nat) (t : Token) : Lexer :=
  { l.emit t with place := l.place.advance width }

/-! ## Possible keys -/

def isStale (l : Lexer) (k : PossibleKey) : Bool :=
  k.line != l.place.line || k.index + maxKeyLength < l.place.index

/-- Forgets possible keys on other lines and those too long ago. -/
def dropStale (l : Lexer) : Outcome Lexer :=
  if l.keys.any fun k => l.isStale k && k.required then badToken
  else .ok { l with keys := l.keys.filter (!l.isStale ·) }

/-- Forgets the possible key between the innermost brackets. -/
def dropKey (l : Lexer) : Outcome Lexer :=
  if l.keys.any fun k => k.level == l.level && k.required then badToken
  else .ok { l with keys := l.keys.filter (·.level != l.level) }

/-- Remembers that the next token may start a key. -/
def noteKey (l : Lexer) : Outcome Lexer := do
  if !l.allowsKey then return l
  let p := l.place
  let required := !l.inFlow && l.indent == p.column
  let l ← l.dropKey
  let key := ⟨l.level, l.taken + l.tokens.length, required, p.index, p.line, p.column⟩
  return { l with keys := l.keys ++ [key] }

/-! ## Indentation -/

/-- Leaves indentations deeper than a column: how many they are, and what is left. -/
def leave (column : Int) : Int → List Int → Nat × Int × List Int
  | indent, [] => (0, indent, [])
  | indent, up :: rest =>
    if column < indent then
      let (n, indent, outer) := leave column up rest
      (n + 1, indent, outer)
    else (0, indent, up :: rest)

/-- Ends the block collections that are indented deeper than a column. -/
def unwind (l : Lexer) (column : Int) : Lexer :=
  if l.inFlow then l
  else
    let (n, indent, outer) := leave column l.indent l.outer
    { l with tokens := l.tokens ++ List.replicate n .blockEnd, indent, outer }

/-- Enters a block collection, if the column is deeper than the one around it. -/
def enter (l : Lexer) (column : Int) (start : Token) (index : Nat) : Lexer :=
  if l.indent < column then
    { l with tokens := l.tokens.take index ++ start :: l.tokens.drop index, indent := column,
             outer := l.indent :: l.outer }
  else l

/-! ## Single tokens -/

/-- Passes over spaces, comments and breaks. Behind a break outside of brackets a key may stand. -/
def skipGaps : Nat → Lexer → Lexer
  | 0, l => l
  | fuel + 1, l =>
    let p := l.place.skip (· == ' ')
    let p := if p.head == '#' then p.skip (!isLineEnd ·) else p
    match p.break? with
    | some (_, p) => skipGaps fuel { l with place := p, allowsKey := l.allowsKey || !l.inFlow }
    | none => { l with place := p }

def fetchFinish (l : Lexer) : Outcome Lexer := do
  let l ← (l.unwind (-1)).dropKey
  return { l.emit .finish with allowsKey := false, keys := [], finished := true }

def fetchDirective (l : Lexer) : Outcome Lexer := do
  let l ← (l.unwind (-1)).dropKey
  let (d, place) ← readDirective l.place
  return { l.emit (.directive d) with place, allowsKey := false }

def fetchDocumentMark (l : Lexer) (t : Token) : Outcome Lexer := do
  let l ← (l.unwind (-1)).dropKey
  return { l.emitMark 3 t with allowsKey := false }

def fetchOpening (l : Lexer) (t : Token) : Outcome Lexer := do
  let l ← l.noteKey
  return { l.emitMark 1 t with level := l.level + 1, allowsKey := true }

def fetchClosing (l : Lexer) (t : Token) : Outcome Lexer := do
  let l ← l.dropKey
  return { l.emitMark 1 t with level := l.level - 1, allowsKey := false }

def fetchComma (l : Lexer) : Outcome Lexer := do
  let l ← l.dropKey
  return { l.emitMark 1 .flowEntry with allowsKey := true }

/-- A mark that may start a block collection where it stands. -/
def fetchBlockMark (l : Lexer) (start mark : Token) (allowsKey : Bool) : Outcome Lexer := do
  if !l.inFlow && !l.allowsKey then badToken
  let l := if l.inFlow then l else l.enter l.place.column start l.tokens.length
  let l ← l.dropKey
  return { l.emitMark 1 mark with allowsKey }

/-- A colon. If something before it can be a key, it is one. -/
def fetchValue (l : Lexer) : Outcome Lexer :=
  match l.keys.find? (·.level == l.level) with
  | some k =>
    let index := k.number - l.taken
    let l := { l with
      keys := l.keys.filter (·.level != l.level)
      tokens := l.tokens.take index ++ Token.key :: l.tokens.drop index
      allowsKey := false }
    .ok ((if l.inFlow then l else l.enter k.column .mappingStart index).emitMark 1 .value)
  | none => l.fetchBlockMark .mappingStart .value (!l.inFlow)

def fetchNamed (l : Lexer) (token : String → Token) : Outcome Lexer := do
  let l ← l.noteKey
  let (name, place) ← nameAfterMark l.place
  return { l.emit (token name) with place, allowsKey := false }

def fetchTag (l : Lexer) : Outcome Lexer := do
  let l ← l.noteKey
  let (t, place) ← readTag l.place
  return { l.emit (.tag t) with place, allowsKey := false }

def fetchBlockScalar (l : Lexer) (folded : Bool) : Outcome Lexer := do
  let l ← l.dropKey
  let (text, place) ← blockScalar folded l.indent l.place
  return { l.emit (.scalar (String.ofList text) false) with place, allowsKey := true }

def fetchQuoted (l : Lexer) : Outcome Lexer := do
  let l ← l.noteKey
  let (text, place) ← quotedScalar l.place
  return { l.emit (.scalar (String.ofList text) false) with place, allowsKey := false }

def fetchPlain (l : Lexer) : Outcome Lexer := do
  let l ← l.noteKey
  let t := plainScalar l.inFlow (l.indent + 1) l.place
  return { l.emit (.scalar (String.ofList t.text) true) with place := t.place, allowsKey := t.broken }

/-- Characters that start no plain scalar. -/
def isIndicator (c : Char) : Bool := "-?:,[]\x7b\x7d#&*!|>'\"%@\x60".contains c

/-- Can a plain scalar start at the place? -/
def startsPlain (l : Lexer) : Bool :=
  let c := l.place.head
  !(isGap c || isIndicator c) ||
    (!isGap (l.place.ahead 1) && (c == '-' || (!l.inFlow && (c == '?' || c == ':'))))

/-- Reads one more token, with those that it entails. -/
def fetch (l : Lexer) : Outcome Lexer := do
  let l := if l.place.index = 0 ∧ l.place.head = '\ufeff' then { l with place := l.place.next } else l
  let l ← (skipGaps l.place.steps l).dropStale
  let l := l.unwind l.place.column
  let p := l.place
  let c := p.head
  let beforeGap := isGap (p.ahead 1)
  if c == endMark then l.fetchFinish
  else if p.column = 0 ∧ c = '%' then l.fetchDirective
  else if p.column = 0 ∧ p.isTripled '-' then l.fetchDocumentMark .documentStart
  else if p.column = 0 ∧ p.isTripled '.' then l.fetchDocumentMark .documentEnd
  else if c == '[' then l.fetchOpening .flowListStart
  else if c == '{' then l.fetchOpening .flowMappingStart
  else if c == ']' then l.fetchClosing .flowListEnd
  else if c == '}' then l.fetchClosing .flowMappingEnd
  else if c == ',' then l.fetchComma
  else if c == '-' && beforeGap then l.fetchBlockMark .listStart .entry true
  else if c == '?' && (l.inFlow || beforeGap) then l.fetchBlockMark .mappingStart .key (!l.inFlow)
  else if c == ':' && (l.inFlow || beforeGap) then l.fetchValue
  else if c == '*' then l.fetchNamed .reference
  else if c == '&' then l.fetchNamed .anchor
  else if c == '!' then l.fetchTag
  else if c == '|' && !l.inFlow then l.fetchBlockScalar false
  else if c == '>' && !l.inFlow then l.fetchBlockScalar true
  else if c == '\'' || c == '"' then l.fetchQuoted
  else if l.startsPlain then l.fetchPlain
  else badToken

/-- Can the next token be handed out? -/
def isReady (l : Lexer) : Bool :=
  l.finished || (!l.tokens.isEmpty && !l.keys.any (·.number == l.taken))

/-- Reads until the next token can be handed out. -/
def fill : Nat → Lexer → Outcome Lexer
  | 0, l => .ok l
  | fuel + 1, l => do
    let l ← if l.finished || l.tokens.isEmpty then pure l else l.dropStale
    if l.isReady then return l
    fill fuel (← l.fetch)

/-- The next token, and the reading in which it is at hand. -/
def peek (l : Lexer) : Outcome (Token × Lexer) := do
  let l ← l.fill l.steps
  return (l.tokens.headD .finish, l)

/-- Hands out the next token. -/
def drop (l : Lexer) : Lexer := { l with tokens := l.tokens.tail, taken := l.taken + 1 }

end Lexer
end Winnow.Yaml
