import Winnow.Yaml.Place
import Winnow.Number.Read
/-! # Texts of scalars

A scalar stands plain, in quotes, or as an indented block. A line's end inside of a plain or quoted
scalar becomes a space, and empty lines become newlines. A block keeps its lines or, if it is folded,
joins those that start with no blank. -/

namespace Winnow.Yaml

/-- The text of a gap with breaks: a newline alone is a space, and goes away before further breaks. -/
def foldBreaks (first : Char) (more : List Char) : List Char :=
  if first ≠ '\n' then first :: more else if more.isEmpty then [' '] else more

/-! ## Plain scalars -/

/-- The characters of a plain scalar up to a gap or a mark. A colon is a mark before a gap; between
brackets, commas, question marks and brackets are marks as well. -/
def plainPart (inFlow : Bool) : List Char → List Char
  | [] => []
  | c :: rest =>
    let behind := rest.headD endMark
    let isMark := c == ':' && (isGap behind || (inFlow && [',', '[', ']', '{', '}'].contains behind))
    if isGap c || isMark || (inFlow && [',', '?', '[', ']', '{', '}'].contains c) then []
    else c :: plainPart inFlow rest

/-- Breaks between parts, with the spaces around them; `none` where a document mark follows one. -/
def plainBreaks : Nat → Place → Option (List Char) × Place
  | 0, p => (some [], p)
  | fuel + 1, p =>
    if p.isDocumentMark then (none, p)
    else
      let p := p.skip (· == ' ')
      match p.break? with
      | some (c, p) =>
        let (more, p) := plainBreaks fuel p
        (more.map (c :: ·), p)
      | none => (some [], p)

/-- A plain scalar as far as it is read: its text, the gap behind it and whether that has a break. -/
structure PlainText where
  text : List Char := []
  gap : List Char := []
  broken : Bool := false
  place : Place
deriving Repr

/-- The gap behind a part. -/
def plainGap (text : List Char) (p : Place) : PlainText :=
  let (spaces, p) := p.span (· == ' ')
  match p.break? with
  | some (c, p) =>
    let (more, p) := plainBreaks p.steps p
    ⟨text, (more.map (foldBreaks c)).getD [], true, p⟩
  | none => ⟨text, spaces, false, p⟩

/-- Reads parts and gaps until a mark, a comment, or a line that is indented less. -/
def plainParts (inFlow : Bool) (indent : Int) : Nat → PlainText → PlainText
  | 0, t => t
  | fuel + 1, t =>
    let part := plainPart inFlow t.place.rest
    if t.place.head == '#' || part.isEmpty then t
    else
      let t := plainGap (t.text ++ t.gap ++ part) (t.place.advance part.length)
      if t.gap.isEmpty || t.place.head == '#' || (!inFlow && (t.place.column : Int) < indent) then t
      else plainParts inFlow indent fuel t

/-- The plain scalar at a place; its further lines are indented by `indent` at least. -/
def plainScalar (inFlow : Bool) (indent : Int) (p : Place) : PlainText :=
  plainParts inFlow indent p.steps { place := p }

/-! ## Quoted scalars -/

/-- What characters behind a backslash stand for. -/
def escapes : List (Char × Char) :=
  [('0', '\x00'), ('a', '\x07'), ('b', '\x08'), ('t', '\t'), ('\t', '\t'), ('n', '\n'), ('v', '\x0b'),
   ('f', '\x0c'), ('r', '\r'), ('e', '\x1b'), (' ', ' '), ('"', '"'), ('\\', '\\'), ('/', '/'),
   ('N', '\x85'), ('_', '\xa0'), ('L', '\u2028'), ('P', '\u2029')]

/-- How many digits follow a letter that introduces a code. -/
def codeWidths : List (Char × Nat) := [('x', 2), ('u', 4), ('U', 8)]

def isHexDigit (c : Char) : Bool := (digitOf? c).any (· < 16)

/-- The number that a fixed count of hexadecimal digits denotes. -/
def hexCode (width : Nat) (cs : List Char) : Outcome Nat :=
  let digits := cs.take width
  if digits.length = width ∧ digits.all isHexDigit then .ok (ofDigits 16 (digits.filterMap digitOf?))
  else badToken

/-- The largest code, and the largest number that is looked at as a code. -/
def maxCode : Nat := 0x10ffff
def maxCodeNumber : Nat := 0x7fffffff

def codeChar (code : Nat) : Outcome Char :=
  if code ≤ maxCode then .ok (Char.ofNat code)
  else .error (.fault (if code ≤ maxCodeNumber then .badValue else .overflow))

/-- Breaks between quotes, with the blanks around them. No document mark may follow one. -/
def quotedBreaks : Nat → Place → Outcome (List Char × Place)
  | 0, p => .ok ([], p)
  | fuel + 1, p =>
    if p.isDocumentMark then badToken
    else
      let p := p.skip isSpace
      match p.break? with
      | some (c, p) => do
        let (more, p) ← quotedBreaks fuel p
        return (c :: more, p)
      | none => .ok ([], p)

/-- What stands behind a backslash: a letter, a code or a break, which goes away. -/
def escaped (p : Place) : Outcome (List Char × Place) :=
  match escapes.lookup p.head, codeWidths.lookup p.head, p.break? with
  | some c, _, _ => .ok ([c], p.next)
  | none, some width, _ => do
    let code ← hexCode width p.next.rest
    return ([← codeChar code], p.next.advance width)
  | none, none, some (_, p) => quotedBreaks p.steps p
  | none, none, none => badToken

/-- The text up to a blank, a break or the closing quote. Between single quotes, a quote is written
twice; between double quotes, a backslash changes what follows it. -/
def quotedPart (double : Bool) : Nat → Place → Outcome (List Char × Place)
  | 0, p => .ok ([], p)
  | fuel + 1, p =>
    let (cs, p) := p.span fun c => !(isGap c || c == '\'' || c == '"' || c == '\\')
    let thenMore (ds : List Char) (p : Place) : Outcome (List Char × Place) := do
      let (more, p) ← quotedPart double fuel p
      return (cs ++ ds ++ more, p)
    let c := p.head
    if !double && c == '\'' && p.ahead 1 == '\'' then thenMore ['\''] (p.advance 2)
    else if (double && c == '\'') || (!double && (c == '"' || c == '\\')) then thenMore [c] p.next
    else if double && c == '\\' then do
      let (ds, p) ← escaped p.next
      thenMore ds p
    else .ok (cs, p)

/-- The gap behind a part. -/
def quotedGap (p : Place) : Outcome (List Char × Place) :=
  let (blanks, p) := p.span isSpace
  if p.head == endMark then badToken
  else
    match p.break? with
    | some (c, p) => do
      let (more, p) ← quotedBreaks p.steps p
      return (foldBreaks c more, p)
    | none => .ok (blanks, p)

/-- Parts and gaps up to the closing quote, and the place behind it. -/
def quotedParts (quote : Char) : Nat → Place → Outcome (List Char × Place)
  | 0, _ => badToken
  | fuel + 1, p => do
    let (part, p) ← quotedPart (quote == '"') p.steps p
    if p.head == quote then return (part, p.next)
    let (gap, p) ← quotedGap p
    let (more, p) ← quotedParts quote fuel p
    return (part ++ gap ++ more, p)

/-- The scalar in quotes at a place. -/
def quotedScalar (p : Place) : Outcome (List Char × Place) := quotedParts p.head p.steps p.next

/-! ## Blocks -/

/-- What becomes of the breaks at the end of a block: the last one stays, none stays, or all stay. -/
inductive Chomping
  | clip | strip | keep
deriving DecidableEq, Repr

/-- How a block is laid out: its end, and its indentation where that is given. -/
structure BlockHeader where
  chomping : Chomping
  width : Option Nat
deriving DecidableEq, Repr

def chompings : List (Char × Chomping) := [('+', .keep), ('-', .strip)]

/-- A digit of the header, which is not zero. -/
def readWidth (p : Place) : Outcome (Option Nat × Place) :=
  if p.head == '0' then badToken
  else if p.head.isDigit then .ok (digitOf? p.head, p.next)
  else .ok (none, p)

/-- The mark and the digit behind `|` or `>`, in either order. -/
def readHeader (p : Place) : Outcome (BlockHeader × Place) := do
  let (header, p) ← match chompings.lookup p.head with
    | some chomping => do
      let (width, p) ← readWidth p.next
      pure (⟨chomping, width⟩, p)
    | none => do
      let (width, q) ← readWidth p
      match width, chompings.lookup q.head with
      | some _, some chomping => pure (⟨chomping, width⟩, q.next)
      | _, _ => pure (⟨.clip, width⟩, q)
  if p.head == ' ' || isLineEnd p.head then return (header, p) else badToken

/-- The breaks before the first line, and the largest column that spaces reach there. -/
def leadingBreaks : Nat → Nat → Place → List Char × Nat × Place
  | 0, widest, p => ([], widest, p)
  | fuel + 1, widest, p =>
    if p.head == ' ' then leadingBreaks fuel (max widest p.next.column) p.next
    else
      match p.break? with
      | some (c, p) =>
        let (more, widest, p) := leadingBreaks fuel widest p
        (c :: more, widest, p)
      | none => ([], widest, p)

/-- The breaks of empty lines; up to `indent` spaces may stand before each and before what follows. -/
def emptyLines (indent : Nat) : Nat → Place → List Char × Place
  | 0, p => ([], p)
  | fuel + 1, p =>
    let p := p.advance (min (p.rest.takeWhile (· == ' ')).length (indent - p.column))
    match p.break? with
    | some (c, p) =>
      let (more, p) := emptyLines indent fuel p
      (c :: more, p)
    | none => ([], p)

/-- A block as far as it is read: its text, the break behind its last line and those of the empty lines
behind that. -/
structure BlockText where
  text : List Char := []
  last : List Char := []
  trailing : List Char := []
  place : Place
deriving Repr

/-- Does a line of the block start at the place? -/
def startsLine (indent : Nat) (p : Place) : Bool := p.column == indent && p.head != endMark

/-- The lines of a block. A folded block joins lines that start with no blank. -/
def blockLines (folded : Bool) (indent : Nat) : Nat → BlockText → BlockText
  | 0, t => t
  | fuel + 1, t =>
    if !startsLine indent t.place then t
    else
      let (line, p) := t.place.span (!isLineEnd ·)
      let (last, p) := match p.break? with
        | some (c, p) => ([c], p)
        | none => ([], p)
      let (trailing, p) := emptyLines indent p.steps p
      let text := t.text ++ t.trailing ++ line
      if !startsLine indent p then ⟨text, last, trailing, p⟩
      else
        let joins := folded && last == ['\n'] && !isSpace t.place.head && !isSpace p.head
        let joint := if !joins then last else if trailing.isEmpty then [' '] else []
        blockLines folded indent fuel ⟨text ++ joint, [], trailing, p⟩

/-- The block at a place, inside of a collection that is indented by `indent`. Its indentation is that of
its first line unless the header tells it. -/
def blockScalar (folded : Bool) (indent : Int) (p : Place) : Outcome (List Char × Place) := do
  let (header, p) ← readHeader p.next
  let p ← restOfLine p
  let least := (max (indent + 1) 1).toNat
  let (width, breaks, p) := match header.width with
    | some n =>
      let width := least + n - 1
      let (breaks, p) := emptyLines width p.steps p
      (width, breaks, p)
    | none =>
      let (breaks, widest, p) := leadingBreaks p.steps 0 p
      (max least widest, breaks, p)
  let t := blockLines folded width p.steps { trailing := breaks, place := p }
  return (t.text ++ (match header.chomping with
    | .strip => []
    | .clip => t.last
    | .keep => t.last ++ t.trailing), t.place)

end Winnow.Yaml
