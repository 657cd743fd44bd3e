import Winnow.Pattern.Parse
/-! # Matching

A tree denotes a matcher: from a cursor it tries its ways through the text in order of preference and
hands each to a continuation until one succeeds. `search` tries every start from the left. -/

namespace Winnow.Pattern

/-- A position in the text, and the texts of the groups matched so far. -/
structure Cursor where
  /-- characters before the position, nearest first -/
  before : List Char
  rest : List Char
  position : Nat
  captures : List (Nat × List Char)

abbrev Continuation := Cursor → Option Cursor

abbrev Matcher := Cursor → Continuation → Option Cursor

/-- The codes that ignore-case matching identifies with a lower case code. -/
def Mode.variants (mode : Mode) (n : Nat) : List Nat :=
  if mode.ignoreCase && !mode.ascii then n :: Text.siblings n else [n]

def Mode.isDigit (mode : Mode) (c : Char) : Bool := if mode.ascii then c.isDigit else Text.isDigit c

def Mode.isBlank (mode : Mode) (c : Char) : Bool :=
  if mode.ascii then Text.isAsciiBlank c else Text.isBlank c

def Mode.isWord (mode : Mode) (c : Char) : Bool :=
  if mode.ascii then c.isAlphanum || c == '_' else Text.isWord c

/-- Codes whose lower case is `n` in this mode. -/
def Mode.preimages (mode : Mode) (n : Nat) : List Nat :=
  if !mode.ignoreCase then [n]
  else if mode.ascii then (if 97 ≤ n ∧ n ≤ 122 then [n, n - 32] else [n])
  else Text.lowerPreimages n

/-- The last code of the basic plane. -/
def lastBasic : Nat := 0xffff

/-- Is a character, in lower case where case is ignored, a member? Where case is ignored, codes of the
basic plane stand for all their variants; a code beyond it stands for itself, and a range that goes
beyond it for its own characters and those with an upper case in it. -/
def Member.contains (mode : Mode) (m : Member) (c : Char) : Bool :=
  match m with
  | code n => if lastBasic < n then c.toNat == n else (mode.variants (mode.lower n)).contains c.toNat
  | range a b =>
    let within (k : Nat) : Bool := a ≤ k && k ≤ b
    ((mode.variants c.toNat).any fun n => (mode.preimages n).any fun k => within k && k ≤ lastBasic) ||
      (lastBasic < b &&
        (within c.toNat || (mode.ignoreCase && within (Text.simpleUpper c.toNat))))
  | digit negated => mode.isDigit c != negated
  | blank negated => mode.isBlank c != negated
  | word negated => mode.isWord c != negated

def Mode.lowerChar (mode : Mode) (c : Char) : Char :=
  if mode.ignoreCase then Char.ofNat (mode.lower c.toNat) else c

/-- Does a one-character test accept the character? -/
def isMember (mode : Mode) (negated : Bool) (members : List Member) (c : Char) : Bool :=
  (members.any fun m => m.contains mode (mode.lowerChar c)) != negated

def atBoundary (mode : Mode) (s : Cursor) : Bool :=
  (s.before.head?.any mode.isWord) != (s.rest.head?.any mode.isWord)

def Anchor.holds (mode : Mode) (a : Anchor) (s : Cursor) : Bool :=
  match a with
  | lineStart => s.before.isEmpty || (mode.multiline && s.before.head? == some '\n')
  | lineEnd =>
    s.rest.isEmpty || (s.rest.head? == some '\n' && (mode.multiline || s.rest.length == 1))
  | textStart => s.before.isEmpty
  | textEnd => s.rest.isEmpty
  | boundary => !(s.before.isEmpty && s.rest.isEmpty) && atBoundary mode s
  | notBoundary => !(s.before.isEmpty && s.rest.isEmpty) && !atBoundary mode s

/-- Consumes one character that passes the test. -/
def one (p : Char → Bool) : Matcher := fun s k =>
  match s.rest with
  | [] => none
  | c :: rest => if p c then k { s with before := c :: s.before, rest, position := s.position + 1 } else none

/-- Moves over a given number of characters. -/
def Cursor.advance : Nat → Cursor → Cursor
  | 0, s => s
  | n + 1, s =>
    match s.rest with
    | [] => s
    | c :: rest => advance n { s with before := c :: s.before, rest, position := s.position + 1 }

/-- Moves back over a given number of characters, if there are as many. -/
def Cursor.retreat? : Nat → Cursor → Option Cursor
  | 0, s => some s
  | n + 1, s =>
    match s.before with
    | [] => none
    | c :: before => retreat? n { s with before, rest := c :: s.rest, position := s.position - 1 }

/-- Repeats a matcher. `last` is where the previous optional round began: a round that does not move is
not followed by another. The fuel exceeds the number of rounds the text allows. -/
def rounds (m : Matcher) (lazy : Bool) (least : Nat) (most : Option Nat) :
    Nat → Nat → Option Nat → Matcher
  | 0, _, _ => fun s k => k s
  | fuel + 1, n, last => fun s k =>
    if n < least then m s fun s' => rounds m lazy least most fuel (n + 1) last s' k
    else
      let again := fun _ : Unit =>
        if most.all (n < ·) ∧ last ≠ some s.position then
          m s fun s' => rounds m lazy least most fuel (n + 1) (some s.position) s' k
        else none
      if lazy then (k s).orElse again else (again ()).orElse fun _ => k s

/-- Repeats a matcher as often as it goes, without giving anything back. -/
def possessiveRounds (m : Matcher) (least : Nat) (most : Option Nat) : Nat → Nat → Cursor → Option Cursor
  | 0, _, s => some s
  | fuel + 1, n, s =>
    if most.all (n < ·) then
      match m s some with
      | some s' =>
        if s'.position = s.position ∧ least ≤ n then some s'
        else possessiveRounds m least most fuel (n + 1) s'
      | none => if n < least then none else some s
    else some s

/-- Does the text continue with the given characters? -/
def continues (mode : Mode) : List Char → List Char → Bool
  | [], _ => true
  | _ :: _, [] => false
  | c :: cs, d :: ds => mode.lowerChar c == mode.lowerChar d && continues mode cs ds

def Tree.run : Tree → Matcher
  | fail => fun _ _ => none
  | literal mode n => one fun c => (mode.variants (mode.lower n)).contains (mode.lower c.toNat)
  | any mode => one fun c => mode.dotAll || c != '\n'
  | oneOf mode negated members => one (isMember mode negated members)
  | anchor mode a => fun s k => if a.holds mode s then k s else none
  | reference mode g => fun s k =>
    match s.captures.lookup g with
    | none => none
    | some cs => if continues mode cs s.rest then k (s.advance cs.length) else none
  | sequence items => inOrder items
  | branch branches => oneAfterOther branches
  | repeated body least most greed => fun s k =>
    let fuel := least + s.rest.length + 2
    match greed with
    | .greedy => rounds body.run false least most fuel 0 none s k
    | .lazy => rounds body.run true least most fuel 0 none s k
    | .possessive => (possessiveRounds body.run least most fuel 0 s).bind k
  | group none body => body.run
  | group (some g) body => fun s k =>
    body.run s fun s' =>
      k { s' with captures := (g, s.rest.take (s'.position - s.position)) :: s'.captures }
  | look ahead negated width body => fun s k =>
    let start? := if ahead then some s else s.retreat? width
    let found := start?.bind fun start => body.run start some
    match found, negated with
    | some s', false => k { s with captures := s'.captures }
    | none, true => k s
    | _, _ => none
  | atomic body => fun s k => (body.run s some).bind k
  | conditional g yes no => fun s k =>
    if (s.captures.lookup g).isSome then yes.run s k else no.run s k
termination_by structural t => t
where
  inOrder : List Tree → Matcher
  | [] => fun s k => k s
  | t :: ts => fun s k => t.run s fun s' => inOrder ts s' k
  termination_by structural ts => ts
  oneAfterOther : List Tree → Matcher
  | [] => fun _ _ => none
  | t :: ts => fun s k => (t.run s k).orElse fun _ => oneAfterOther ts s k
  termination_by structural ts => ts

/-- A compiled pattern: its source with the flags in force, and its tree. -/
structure Program where
  pattern : Pattern
  tree : Tree

def compile (source : String) (flags : Int) : Except ParseError Program :=
  match parse source flags with
  | .ok parsed => .ok ⟨⟨source, parsed.flags⟩, parsed.tree⟩
  | .error e => .error e

namespace Program

def start (text : String) : Cursor := ⟨[], text.toList, 0, []⟩

/-- Does the pattern match at the start of the text? -/
def matchesStart (p : Program) (text : String) : Bool := (p.tree.run (start text) some).isSome

/-- Start and end of the first match from the left. -/
def searchFrom (p : Program) : List Char → List Char → Nat → Option (Nat × Nat)
  | before, rest, position =>
    match p.tree.run ⟨before, rest, position, []⟩ some with
    | some s => some (position, s.position)
    | none =>
      match rest with
      | [] => none
      | c :: rest => searchFrom p (c :: before) rest (position + 1)

def search (p : Program) (text : String) : Option (Nat × Nat) := p.searchFrom [] text.toList 0

end Program

/-- The pattern with a source and flags, with the flags in force after compilation. -/
def make? (source : String) (flags : Int) : Except ParseError Pattern :=
  (compile source flags).map (·.pattern)

/-- The largest flags that a pattern can be compiled with. -/
def maxFlags : Int := Int.pow 2 31 - 1

/-- A pattern from a source and flags that were written down. -/
def restore (source : String) (flags : Int) : Except ParseError Pattern :=
  match make? source flags with
  | .ok p => if maxFlags < flags ∨ flags < -maxFlags - 1 then .error .countTooLarge else .ok p
  | .error e => .error e

end Winnow.Pattern
