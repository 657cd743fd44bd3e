import Winnow.Pattern.Basic
import Winnow.Text.Case
/-! # Parsed patterns

A parsed pattern is a tree of tests on characters and positions. Every test carries the mode in force
where it was written. `Tree.width` bounds the number of characters a match spans. -/

namespace Winnow.Pattern

/-- Flags that change how a test reads its character or position. -/
structure Mode where
  ignoreCase : Bool
  multiline : Bool
  dotAll : Bool
  ascii : Bool
deriving DecidableEq, Repr

def Mode.ofFlags (flags : Int) : Mode :=
  ⟨hasFlag flags Pattern.ignoreCase, hasFlag flags Pattern.multiline, hasFlag flags Pattern.dotAll,
    hasFlag flags Pattern.ascii⟩

/-- The lower case of a code, where case is ignored. -/
def Mode.lower (mode : Mode) (n : Nat) : Nat :=
  if !mode.ignoreCase then n
  else if mode.ascii then (if 65 ≤ n ∧ n ≤ 90 then n + 32 else n)
  else Text.simpleLower n

/-- A member of a character set. -/
inductive Member
  | code (n : Nat)
  | range (first last : Nat)
  | digit (negated : Bool)
  | blank (negated : Bool)
  | word (negated : Bool)
deriving DecidableEq, Repr

inductive Anchor
  | lineStart | lineEnd | textStart | textEnd | boundary | notBoundary
deriving DecidableEq, Repr

/-- In which order the lengths of a repetition are tried; a possessive one is never given back. -/
inductive Greed
  | greedy | lazy | possessive
deriving DecidableEq, Repr

inductive Tree
  | fail
  | literal (mode : Mode) (code : Nat)
  | any (mode : Mode)
  | oneOf (mode : Mode) (negated : Bool) (members : List Member)
  | anchor (mode : Mode) (a : Anchor)
  | reference (mode : Mode) (group : Nat)
  | sequence (items : List Tree)
  | branch (branches : List Tree)
  | repeated (body : Tree) (least : Nat) (most : Option Nat) (greed : Greed)
  | group (index : Option Nat) (body : Tree)
  | look (ahead negated : Bool) (width : Nat) (body : Tree)
  | atomic (body : Tree)
  | conditional (group : Nat) (yes no : Tree)
deriving Repr, Inhabited

/-- Has the item no parts of its own? -/
def Tree.isSimple : Tree → Bool
  | literal .. | any _ | oneOf .. | anchor .. | reference .. => true
  | _ => false

/-- Are two items without parts the same? -/
def Tree.sameAs : Tree → Tree → Bool
  | literal m n, literal m' n' => m == m' && n == n'
  | any m, any m' => m == m'
  | oneOf m b ms, oneOf m' b' ms' => m == m' && b == b' && ms == ms'
  | anchor m a, anchor m' a' => m == m' && a == a'
  | reference m g, reference m' g' => m == m' && g == g'
  | _, _ => false

/-- Is there a repetition in the tree? -/
def Tree.repeats : Tree → Bool
  | repeated .. => true
  | sequence items | branch items => anyRepeats items
  | group _ body | atomic body | look _ _ _ body => body.repeats
  | conditional _ yes no => yes.repeats || no.repeats
  | _ => false
where
  anyRepeats : List Tree → Bool
  | [] => false
  | t :: ts => t.repeats || anyRepeats ts

/-- Least and greatest number of characters; no greatest when unbounded. -/
abbrev Width := Nat × Option Nat

namespace Width

def add (a b : Width) : Width :=
  (a.1 + b.1, match a.2, b.2 with
    | some x, some y => some (x + y)
    | _, _ => none)

def join (a b : Width) : Width :=
  (min a.1 b.1, match a.2, b.2 with
    | some x, some y => some (max x y)
    | _, _ => none)

def times (a : Width) (least : Nat) (most : Option Nat) : Width :=
  (a.1 * least, match a.2, most with
    | some 0, _ => some 0
    | _, some 0 => some 0
    | some x, some n => some (x * n)
    | _, _ => none)

end Width

/-- The width of a tree, given those of the groups it refers to. -/
def Tree.width (groups : Nat → Width) : Tree → Width
  | fail => (0, some 0)
  | literal .. | any _ | oneOf .. => (1, some 1)
  | anchor .. | look .. => (0, some 0)
  | reference _ g => groups g
  | sequence items => total items
  | branch branches => widest branches
  | repeated body least most _ => (body.width groups).times least most
  | group _ body | atomic body => body.width groups
  | conditional _ yes no => (yes.width groups).join (no.width groups)
where
  total : List Tree → Width
  | [] => (0, some 0)
  | t :: ts => (t.width groups).add (total ts)
  widest : List Tree → Width
  | [] => (0, some 0)
  | [t] => t.width groups
  | t :: ts => (t.width groups).join (widest ts)

end Winnow.Pattern
