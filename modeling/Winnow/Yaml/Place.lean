import Winnow.Failure
/-! # Places in a document

A place is where reading has come to: the text from there on, counted in characters, lines and columns.
A document is read as if a NUL followed it, which no document holds. -/

namespace Winnow.Yaml

/-- What stands behind a document. -/
def endMark : Char := '\x00'

/-- Lines end at a newline, a next line mark or one of the two separators. -/
def isBreak (c : Char) : Bool := c == '\n' || c == '\x85' || c == '\u2028' || c == '\u2029'

def isLineEnd (c : Char) : Bool := c == endMark || isBreak c

def isSpace (c : Char) : Bool := c == ' ' || c == '\t'

/-- May the character stand behind a mark such as `-` or `:`? -/
def isGap (c : Char) : Bool := isSpace c || isLineEnd c

/-- Letters and digits of ASCII, `-` and `_`: the characters of names. -/
def isNameChar (c : Char) : Bool := c.isAlphanum || c == '-' || c == '_'

structure Place where
  rest : List Char
  index : Nat := 0
  line : Nat := 0
  column : Nat := 0
deriving Repr

namespace Place

/-- The character `n` behind the place. -/
def ahead (p : Place) (n : Nat) : Char := p.rest[n]?.getD endMark

def head (p : Place) : Char := p.rest.headD endMark

/-- The place behind one character; a byte order mark takes no column. -/
def next (p : Place) : Place :=
  match p.rest with
  | [] => p
  | c :: rest =>
    if isBreak c then ⟨rest, p.index + 1, p.line + 1, 0⟩
    else ⟨rest, p.index + 1, p.line, if c == '\ufeff' then p.column else p.column + 1⟩

def advance : Nat → Place → Place
  | 0, p => p
  | n + 1, p => advance n p.next

/-- The characters that satisfy `f`, up to the first that does not, and the place behind them. -/
def span (p : Place) (f : Char → Bool) : List Char × Place :=
  let cs := p.rest.takeWhile f
  (cs, p.advance cs.length)

def skip (p : Place) (f : Char → Bool) : Place := (p.span f).2

/-- The break at a place, if there is one; the separators count as themselves, other breaks as newlines. -/
def break? (p : Place) : Option (Char × Place) :=
  let c := p.head
  if isBreak c then some (if c == '\x85' then '\n' else c, p.next) else none

/-- Three marks and a gap: `---` starts a document and `...` ends one. -/
def isTripled (p : Place) (mark : Char) : Bool :=
  p.ahead 0 == mark && p.ahead 1 == mark && p.ahead 2 == mark && isGap (p.ahead 3)

def isDocumentMark (p : Place) : Bool := p.isTripled '-' || p.isTripled '.'

/-- A bound for the steps that reading on can take. -/
def steps (p : Place) : Nat := p.rest.length + 1

end Place

def failure {α : Type} (e : DocumentError) : Outcome α := .error (.fault (.badDocument e))

def badToken {α : Type} : Outcome α := failure .token

/-- The place behind the rest of a line, on which nothing but a comment may stand. -/
def restOfLine (p : Place) : Outcome Place :=
  let p := p.skip (· == ' ')
  let p := if p.head == '#' then p.skip (!isLineEnd ·) else p
  if isLineEnd p.head then .ok ((p.break?.map (·.2)).getD p) else badToken

end Winnow.Yaml
