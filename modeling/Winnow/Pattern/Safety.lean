import Winnow.Text.Class
/-! # The backtracking guard

A pattern source is refused when it is too long, or when a group without inner groups ends in an
unbounded quantifier and is itself quantified, as in `(a+)+`. The guard reads the source text; it does
not parse it. -/

namespace Winnow

/-- Why a pattern source is refused before it is compiled. -/
inductive Hazard
  | tooLong (limit : Int)
  | nestedQuantifier
deriving DecidableEq, Repr

def Hazard.message : Hazard → String
  | tooLong limit => s!"pattern longer than {limit} characters"
  | nestedQuantifier => "nested quantifier may cause catastrophic backtracking"

namespace Safety

/-- What follows `+`, `*` or `{n,}` at the start of a text. -/
def afterUnbounded? : List Char → Option (List Char)
  | '+' :: rest => some rest
  | '*' :: rest => some rest
  | '\x7b' :: rest =>
    match rest.dropWhile Text.isDigit with
    | ',' :: '\x7d' :: rest => some rest
    | _ => none
  | _ => none

/-- Does a text start with `+`, `*` or a counted quantifier? -/
def startsQuantifier : List Char → Bool
  | '+' :: _ => true
  | '*' :: _ => true
  | '\x7b' :: rest =>
    match rest.dropWhile Text.isDigit with
    | ',' :: rest => (rest.dropWhile Text.isDigit).head? == some '\x7d'
    | rest => rest.head? == some '\x7d'
  | _ => false

/-- Does a text start with an unbounded quantifier that ends a quantified group? -/
def endsNested (cs : List Char) : Bool :=
  match afterUnbounded? cs with
  | some (')' :: rest) => startsQuantifier rest
  | _ => false

/-- Reads on inside a group, escape by escape, until the group's end is found to be nested. -/
def nestedWithin : List Char → Bool
  | [] => false
  | '\\' :: c :: rest => endsNested ('\\' :: c :: rest) || (c != '\n' && nestedWithin rest)
  | c :: rest =>
    endsNested (c :: rest) || (c != '(' && c != ')' && c != '\\' && nestedWithin rest)

/-- Does some group of the text end in a nested quantifier? -/
def hasNested : List Char → Bool
  | [] => false
  | c :: rest => (c == '(' && nestedWithin rest) || hasNested rest

end Safety

/-- The hazard of a pattern source, if it has one. -/
def hazard? (source : String) (limit : Int) : Option Hazard :=
  if limit < source.length then some (.tooLong limit)
  else if Safety.hasNested source.toList then some .nestedQuantifier
  else none

end Winnow
