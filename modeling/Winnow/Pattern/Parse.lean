import Winnow.Pattern.Tree
import Winnow.Text.Identifier
import Winnow.Number.Read
/-! # Reading pattern sources

`parse` turns a source and flags into a tree. It is a recursive descent; the fuel of the mutually
recursive readers is computed from the source's length, as every item takes at least one character. -/

namespace Winnow.Pattern

/-- Why a source is no pattern. -/
inductive ParseError
  /-- the source is malformed -/
  | malformed
  /-- a repetition count is too large -/
  | countTooLarge
  /-- the flags contradict each other or the kind of source -/
  | badFlags
deriving DecidableEq, Repr

/-- What is left to read, and what was read about groups and flags. -/
structure Reader where
  rest : List Char
  /-- flags given with the source and at its start -/
  flags : Int
  names : List (String × Nat)
  /-- width of each group in order; none while the group is open -/
  widths : List (Option Width)
  /-- number of groups before the look-behind being read -/
  lookbehind : Option Nat
  /-- group numbers tested before such a group was seen -/
  tested : List Nat
  /-- was there a look-behind whose length varies? -/
  varies : Bool

abbrev Parser := StateT Reader (Except ParseError)

namespace Parser

def bad {α : Type} : Parser α := throw .malformed

def peek : Parser (Option Char) := do return (← get).rest.head?

def next? : Parser (Option Char) := do
  let r ← get
  match r.rest with
  | [] => return none
  | c :: rest =>
    set { r with rest }
    return some c

def next : Parser Char := do
  match ← next? with
  | some c => return c
  | none => bad

/-- Takes the character if it comes next. -/
def accept (c : Char) : Parser Bool := do
  let r ← get
  match r.rest with
  | d :: rest =>
    if c = d then
      set { r with rest }
      return true
    else return false
  | [] => return false

def takeWhile (limit : Nat) (p : Char → Bool) : Parser (List Char) := do
  let r ← get
  let taken := (r.rest.take limit).takeWhile p
  set { r with rest := r.rest.drop taken.length }
  return taken

/-- Characters up to an end mark, which is taken too; there has to be at least one. -/
def takeUntil (stop : Char) : Parser String := do
  let r ← get
  let taken := r.rest.takeWhile (· ≠ stop)
  match r.rest.drop taken.length with
  | [] => bad
  | _ :: rest =>
    set { r with rest }
    if taken.isEmpty then bad else return String.ofList taken

end Parser

open Winnow.Pattern.Parser

def isHex (c : Char) : Bool :=
  c.isDigit || ('a' ≤ c && c ≤ 'f') || ('A' ≤ c && c ≤ 'F')

def isOctal (c : Char) : Bool := '0' ≤ c && c ≤ '7'

def digitValue (c : Char) : Nat :=
  if c.isDigit then c.toNat - 48
  else if 'a' ≤ c ∧ c ≤ 'f' then c.toNat - 87 else c.toNat - 55

def valueIn (base : Nat) (cs : List Char) : Nat := cs.foldl (fun n c => n * base + digitValue c) 0

/-- Exactly `n` hexadecimal digits. -/
def hexCode (n : Nat) : Parser Nat := do
  let digits ← takeWhile n isHex
  if digits.length = n then return valueIn 16 digits else bad

/-- Escapes of control characters. -/
def control? : Char → Option Nat
  | 'a' => some 7
  | 'f' => some 12
  | 'n' => some 10
  | 'r' => some 13
  | 't' => some 9
  | 'v' => some 11
  | '\\' => some 92
  | _ => none

def category? : Char → Option Member
  | 'd' => some (.digit false)
  | 'D' => some (.digit true)
  | 's' => some (.blank false)
  | 'S' => some (.blank true)
  | 'w' => some (.word false)
  | 'W' => some (.word true)
  | _ => none

def position? : Char → Option Anchor
  | 'A' => some .textStart
  | 'Z' => some .textEnd
  | 'b' => some .boundary
  | 'B' => some .notBoundary
  | _ => none

/-- Escapes by code that sets and sequences share: `\xNN`, `\uNNNN`, `\UNNNNNNNN`. -/
def codeEscape? (c : Char) : Parser (Option Nat) := do
  match c with
  | 'x' => return some (← hexCode 2)
  | 'u' => return some (← hexCode 4)
  | 'U' =>
    let n ← hexCode 8
    if n < 0x110000 then return some n else bad
  | _ => return none

/-- Any other escaped character stands for itself, unless it is an ASCII letter. -/
def escapedSelf (c : Char) : Parser Nat :=
  if c.isAlpha then bad else return c.toNat

def groupCount (r : Reader) : Nat := r.widths.length + 1

/-- Is the group complete? -/
def isClosed (r : Reader) (g : Nat) : Bool := g != 0 && ((r.widths[g - 1]?).join).isSome

/-- A group that a look-behind refers to has to be complete before it. -/
def checkLookbehind (g : Nat) : Parser Unit := do
  let r ← get
  match r.lookbehind with
  | none => return ()
  | some limit => if isClosed r g ∧ g < limit then return () else bad

def referenceTo (mode : Mode) (g : Nat) : Parser Tree := do
  let r ← get
  if isClosed r g then
    checkLookbehind g
    return .reference mode g
  else bad

/-- A backslash and a digit: an octal code of three digits, or else a group number. -/
def numericEscape (mode : Mode) (c : Char) : Parser Tree := do
  if c = '0' then
    let more ← takeWhile 2 isOctal
    return .literal mode (valueIn 8 more)
  else
    let second ← takeWhile 1 Char.isDigit
    match second with
    | [d] =>
      let third ← if isOctal c ∧ isOctal d then takeWhile 1 isOctal else pure []
      match third with
      | [e] =>
        let n := valueIn 8 [c, d, e]
        if n ≤ 255 then return .literal mode n else bad
      | _ =>
        let g := valueIn 10 [c, d]
        if g < groupCount (← get) then referenceTo mode g else bad
    | _ =>
      let g := valueIn 10 [c]
      if g < groupCount (← get) then referenceTo mode g else bad

/-- What follows a backslash outside a set. -/
def escape (mode : Mode) : Parser Tree := do
  let c ← next
  match position? c, category? c, control? c with
  | some a, _, _ => return .anchor mode a
  | _, some m, _ => return .oneOf mode false [m]
  | _, _, some n => return .literal mode n
  | _, _, _ =>
    if c.isDigit then numericEscape mode c
    else
      match ← codeEscape? c with
      | some n => return .literal mode n
      | none => return .literal mode (← escapedSelf c)

/-- What follows a backslash inside a set. -/
def setEscape : Parser Member := do
  let c ← next
  match category? c, control? c with
  | some m, _ => return m
  | _, some n => return .code n
  | _, _ =>
    if c = 'b' then return .code 8
    else if isOctal c then
      let more ← takeWhile 2 isOctal
      let n := valueIn 8 (c :: more)
      if n ≤ 255 then return .code n else bad
    else if c.isDigit then bad
    else
      match ← codeEscape? c with
      | some n => return .code n
      | none => return .code (← escapedSelf c)

def setMember (c : Char) : Parser Member :=
  if c = '\\' then setEscape else return .code c.toNat

/-- Members of a set up to its closing bracket, which does not close an empty set. -/
def setMembers : Nat → List Member → Parser (List Member)
  | 0, _ => bad
  | fuel + 1, found => do
    let c ← next
    if c = ']' ∧ ¬found.isEmpty then return found
    else
      let first ← setMember c
      if ← accept '-' then
        let d ← next
        if d = ']' then return found ++ [first, .code 45]
        else
          match first, ← setMember d with
          | .code a, .code b => if b < a then bad else setMembers fuel (found ++ [.range a b])
          | _, _ => bad
      else setMembers fuel (found ++ [first])

/-- A set of one code is that literal or, negated, its opposite. -/
def characterSet (mode : Mode) : Parser Tree := do
  let negated ← accept '^'
  let members ← setMembers ((← get).rest.length + 1) []
  match members.eraseDups, negated with
  | [.code n], true => return .oneOf mode true [.code (mode.lower n)]
  | [.code n], false => return .literal mode n
  | members, _ => return .oneOf mode negated members

/-- The largest count of a repetition. -/
def countLimit : Nat := 4294967295

def count (digits : List Char) : Parser Nat :=
  let n := valueIn 10 digits
  if n < countLimit then return n else throw .countTooLarge

/-- The bounds after an opening brace; `none` when the brace stands for itself. -/
def bounds? : Parser (Option (Nat × Option Nat)) := do
  let start ← get
  if start.rest.head? = some '\x7d' then return none
  let lo ← takeWhile start.rest.length Char.isDigit
  let comma ← accept ','
  let hi ← if comma then takeWhile start.rest.length Char.isDigit else pure lo
  if ← accept '\x7d' then
    let least ← if lo.isEmpty then pure 0 else count lo
    let most ← if hi.isEmpty then pure none else some <$> count hi
    if most.any (· < least) then bad else return some (least, most)
  else
    set start
    return none

/-- Applies bounds to the last item read. -/
def repeatLast (items : List Tree) (least : Nat) (most : Option Nat) : Parser (List Tree) := do
  match items with
  | [] => bad
  | .anchor .. :: _ => bad
  | .repeated .. :: _ => bad
  | item :: before =>
    if ← accept '?' then return .repeated item least most .lazy :: before
    if ← accept '+' then return .repeated item least most .possessive :: before
    return .repeated item least most .greedy :: before

def flagBit? : Char → Option Nat
  | 'i' => some 2
  | 'L' => some 4
  | 'm' => some 8
  | 's' => some 16
  | 'x' => some 64
  | 'a' => some 256
  | 't' => some 1
  | 'u' => some 32
  | _ => none

/-- Flags that choose the character classes. -/
def isClassFlag (bit : Nat) : Bool := bit == 4 || bit == 32 || bit == 256

/-- Flag letters up to `)`, `-` or `:`, which is given back with the bits. -/
def addedFlags : Nat → Char → List Nat → Parser (List Nat × Char)
  | 0, _, _ => bad
  | fuel + 1, c, bits => do
    match flagBit? c with
    | none => bad
    | some bit =>
      if c = 'L' then bad
      else if isClassFlag bit ∧ bits.any (fun b => isClassFlag b && b != bit) then bad
      else
        let bits := if bits.contains bit then bits else bits ++ [bit]
        let d ← next
        if d = ')' ∨ d = '-' ∨ d = ':' then return (bits, d) else addedFlags fuel d bits

/-- Flag letters after a minus, up to `:`. -/
def removedFlags : Nat → Char → List Nat → Parser (List Nat)
  | 0, _, _ => bad
  | fuel + 1, c, bits => do
    match flagBit? c with
    | none => bad
    | some bit =>
      if isClassFlag bit then bad
      else
        let bits := if bits.contains bit then bits else bits ++ [bit]
        let d ← next
        if d = ':' then return bits else removedFlags fuel d bits

/-- The flags inside a group that turns some on and some off. -/
def combineFlags (flags : Int) (added removed : List Nat) : Int :=
  let flags := if added.any isClassFlag then clearFlag (clearFlag flags 32) 256 else flags
  removed.foldl clearFlag (added.foldl setFlag flags)

/-- Flag letters after a minus. -/
def flagsAfterMinus : Parser (List Nat) := do
  let c ← next
  removedFlags ((← get).rest.length + 1) c []

/-- The flags of a group that turns some on, or `none` when they were given for the whole source. -/
def flagsAfterAdded (flags : Int) (added : List Nat) (stop : Char) : Parser (Option Int) := do
  if stop = ')' then
    modify fun r => { r with flags := added.foldl setFlag r.flags }
    return none
  else if added.contains 1 then bad
  else
    let removed ← if stop = '-' then flagsAfterMinus else pure []
    if removed.contains 1 ∨ added.any removed.contains then bad
    else return some (combineFlags flags added removed)

/-- The flags of a group whose first flag letter, or minus, was read. -/
def groupFlags? (flags : Int) (c : Char) : Parser (Option Int) := do
  if c = '-' then flagsAfterAdded flags [] '-'
  else
    let (added, stop) ← addedFlags ((← get).rest.length + 1) c []
    flagsAfterAdded flags added stop

def isIdentifier (s : String) : Bool :=
  match s.toList with
  | [] => false
  | c :: cs => Text.startsIdentifier c && cs.all Text.continuesIdentifier

/-- Opens a group and gives its number. -/
def openGroup (name : Option String) : Parser Nat := do
  let r ← get
  let g := groupCount r
  match name with
  | some n =>
    if (r.names.lookup n).isSome then bad
    else set { r with widths := r.widths ++ [none], names := r.names ++ [(n, g)] }
  | none => set { r with widths := r.widths ++ [none] }
  return g

def groupWidths (r : Reader) (g : Nat) : Width :=
  ((r.widths[g - 1]?).join).getD (0, none)

def closeGroup (g : Nat) (body : Tree) : Parser Unit :=
  modify fun r => { r with widths := r.widths.set (g - 1) (some (body.width (groupWidths r))) }

/-- A look ahead or behind; behind, it is as wide as its body. -/
def lookTree (ahead negated : Bool) (body : Tree) : Parser Tree := do
  let (least, most) := body.width (groupWidths (← get))
  if ahead then return .look true negated 0 body
  else
    if most ≠ some least then modify fun r => { r with varies := true }
    return .look false negated least body

def closeParenthesis : Parser Unit := do
  if ← accept ')' then return () else bad

/-- The group number that a condition names. -/
def conditionGroup : Parser Nat := do
  let name ← takeUntil ')'
  let g ← if isIdentifier name then
      match (← get).names.lookup name with
      | some g => pure g
      | none => bad
    else
      match readWhole? 10 name.toList with
      | some n =>
        if n ≤ 0 then bad
        else do
          modify fun r => { r with tested := r.tested ++ [n.toNat] }
          pure n.toNat
      | none => bad
  checkLookbehind g
  return g

def isBlankInSource (c : Char) : Bool :=
  c == ' ' || c == '\t' || c == '\n' || c == '\r' || c == '\x0b' || c == '\x0c'

/-- What follows the first character of a kind that no backslash escapes. -/
def behind? (stop : Char) : List Char → Option (List Char)
  | [] => none
  | '\\' :: _ :: rest => behind? stop rest
  | c :: rest => if c = stop then some rest else behind? stop rest

/-- Skips a comment up to its closing parenthesis. -/
def skipComment : Parser Unit := do
  let r ← get
  match behind? ')' r.rest with
  | none => bad
  | some rest => set { r with rest }

def skipLine : Parser Unit :=
  modify fun r => { r with rest := (behind? '\n' r.rest).getD [] }

/-- The item that all alternatives start with, if they start with the same simple one. -/
def commonStart? (alternatives : List (List Tree)) : Option Tree :=
  match alternatives with
  | (t :: _) :: rest =>
    if t.isSimple ∧ rest.all fun items => items.head?.any t.sameAs then some t else none
  | _ => none

/-- The members of an alternative that is one character. -/
def soleMembers? : List Tree → Option (Mode × List Member)
  | [.literal mode n] => some (mode, [.code n])
  | [.oneOf mode false members] => some (mode, members)
  | _ => none

/-- Alternatives as one item. What all start with is taken out; alternatives of one character each then
form a set. -/
def joinAlternatives : Nat → List Tree → List (List Tree) → Tree
  | 0, start, alternatives => .sequence (start.reverse ++ [.branch (alternatives.map .sequence)])
  | fuel + 1, start, alternatives =>
    match commonStart? alternatives with
    | some t => joinAlternatives fuel (t :: start) (alternatives.map List.tail)
    | none =>
      let last :=
        match alternatives.mapM soleMembers? with
        | some (first :: rest) => .oneOf first.1 false ((first :: rest).flatMap (·.2)).eraseDups
        | _ => .branch (alternatives.map .sequence)
      .sequence (start.reverse ++ [last])

/-- One item of a sequence, without a group's or quantifier's special characters. -/
def simpleItem (mode : Mode) (c : Char) : Parser Tree := do
  match c with
  | '\\' => escape mode
  | '[' => characterSet mode
  | '.' => return .any mode
  | '^' => return .anchor mode .lineStart
  | '$' => return .anchor mode .lineEnd
  | _ => return .literal mode c.toNat

mutual

/-- Alternatives up to a closing parenthesis or the end. -/
def branches : Nat → Int → Bool → Parser Tree
  | 0, _, _ => bad
  | fuel + 1, flags, outermost => do
    let first ← items fuel flags outermost []
    let r ← get
    let more ← moreBranches fuel (if outermost then r.flags else flags) outermost
    return if more.isEmpty then .sequence first else joinAlternatives first.length [] (first :: more)
termination_by structural fuel => fuel

def moreBranches : Nat → Int → Bool → Parser (List (List Tree))
  | 0, _, _ => bad
  | fuel + 1, flags, outermost => do
    if ← accept '|' then
      let t ← items fuel flags false []
      let more ← moreBranches fuel flags outermost
      return t :: more
    else return []
termination_by structural fuel => fuel

/-- Items of one alternative; `found` holds those already read, last first. Flags for the whole source
are accepted only at its start. -/
def items : Nat → Int → Bool → List Tree → Parser (List Tree)
  | 0, _, _, _ => bad
  | fuel + 1, flags, atStart, found => do
    match ← peek with
    | none | some '|' | some ')' => return found.reverse
    | some _ =>
      let c ← next
      let mode := Mode.ofFlags flags
      if hasFlag flags Pattern.verbose ∧ isBlankInSource c then items fuel flags atStart found
      else if hasFlag flags Pattern.verbose ∧ c = '#' then
        skipLine
        items fuel flags atStart found
      else if c = '*' then
        items fuel flags atStart (← repeatLast found 0 none)
      else if c = '+' then
        items fuel flags atStart (← repeatLast found 1 none)
      else if c = '?' then
        items fuel flags atStart (← repeatLast found 0 (some 1))
      else if c = '\x7b' then
        match ← bounds? with
        | some (least, most) => items fuel flags atStart (← repeatLast found least most)
        | none => items fuel flags atStart (.literal mode c.toNat :: found)
      else if c = '(' then
        if ← accept '?' then
          let c ← next
          if c = '#' then
            skipComment
            items fuel flags atStart found
          else if c ≠ 'P' ∧ ((flagBit? c).isSome ∨ c = '-') then
            match ← groupFlags? flags c with
            | none =>
              if atStart ∧ found.isEmpty then items fuel (← get).flags atStart found else bad
            | some inner =>
              let body ← branches fuel inner false
              closeParenthesis
              items fuel flags atStart (.group none body :: found)
          else
            let t ← extension fuel flags c
            items fuel flags atStart (t :: found)
        else
          let t ← capture fuel flags none
          items fuel flags atStart (t :: found)
      else
        let t ← simpleItem mode c
        items fuel flags atStart (t :: found)
termination_by structural fuel => fuel

/-- A capturing group after its opening. -/
def capture : Nat → Int → Option String → Parser Tree
  | 0, _, _ => bad
  | fuel + 1, flags, name => do
    let g ← openGroup name
    let body ← branches fuel flags false
    closeParenthesis
    closeGroup g body
    return .group (some g) body
termination_by structural fuel => fuel

/-- A group with a question mark, after the character that says which kind. -/
def extension : Nat → Int → Char → Parser Tree
  | 0, _, _ => bad
  | fuel + 1, flags, c => do
    match c with
    | 'P' =>
      if ← accept '<' then
        let name ← takeUntil '>'
        if isIdentifier name then capture fuel flags (some name) else bad
      else if ← accept '=' then
        let name ← takeUntil ')'
        match (← get).names.lookup name with
        | some g => referenceTo (Mode.ofFlags flags) g
        | none => bad
      else bad
    | ':' =>
      let body ← branches fuel flags false
      closeParenthesis
      return .group none body
    | '>' =>
      let body ← branches fuel flags false
      closeParenthesis
      return .atomic body
    | '=' => lookaround fuel flags true false
    | '!' => lookaround fuel flags true true
    | '<' =>
      if ← accept '=' then lookaround fuel flags false false
      else if ← accept '!' then lookaround fuel flags false true
      else bad
    | '(' =>
      let g ← conditionGroup
      let yes ← items fuel flags false []
      let no ← if ← accept '|' then items fuel flags false [] else pure []
      closeParenthesis
      return .conditional g (.sequence yes) (.sequence no)
    | _ => bad
termination_by structural fuel => fuel

def lookaround : Nat → Int → Bool → Bool → Parser Tree
  | 0, _, _, _ => bad
  | fuel + 1, flags, ahead, negated => do
    let outer := (← get).lookbehind
    if !ahead ∧ outer.isNone then
      modify fun r => { r with lookbehind := some (groupCount r) }
    let body ← branches fuel flags false
    modify fun r => { r with lookbehind := outer }
    closeParenthesis
    lookTree ahead negated body
termination_by structural fuel => fuel

end

/-- Flags a compiled pattern has: those given, those at the start of the source, and the choice of
character classes. -/
def finishFlags (flags : Int) : Except ParseError Int :=
  if hasFlag flags Pattern.locale then .error .badFlags
  else if hasFlag flags Pattern.ascii then
    if hasFlag flags Pattern.unicode then .error .badFlags else .ok flags
  else .ok (setFlag flags Pattern.unicode)

/-- What a source stands for. -/
structure Parsed where
  tree : Tree
  /-- the flags in force -/
  flags : Int
  /-- how many groups there are -/
  groups : Nat
  /-- the names of groups and their numbers -/
  names : List (String × Nat)

/-- What a source with flags stands for. -/
def parse (source : String) (flags : Int) : Except ParseError Parsed := do
  let cs := source.toList
  let fuel := 3 * cs.length + 3
  let (tree, r) ← (branches fuel flags true).run ⟨cs, flags, [], [], none, [], false⟩
  let flags ← finishFlags r.flags
  if !r.rest.isEmpty ∨ r.tested.any (groupCount r ≤ ·) ∨ r.varies then .error .malformed
  else if hasFlag flags Pattern.template ∧ tree.repeats then .error .malformed
  else .ok ⟨tree, flags, r.widths.length, r.names⟩

end Winnow.Pattern
