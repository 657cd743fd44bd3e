import Winnow.Yaml.Place
import Winnow.Number.Read
/-! # Tags

A tag is the type of a node. A plain scalar without a tag has the first type whose form it has, and is
text otherwise. -/

namespace Winnow.Yaml

inductive Tag
  | null
  | bool
  | int
  | float
  | binary
  | timestamp
  | text
  | list
  | mapping
  | set
  | orderedMapping
  | pairs
  /-- a key under which the entries of other mappings are taken over -/
  | merge
  /-- the key of the entry that stands for a whole mapping -/
  | value
  | other (name : String)
deriving DecidableEq, Repr

namespace Tag

/-- The start of the names of the types that every document knows. -/
def common : String := "tag:yaml.org,2002:"

def names : List (String × Tag) :=
  [("null", null), ("bool", bool), ("int", int), ("float", float), ("binary", binary),
   ("timestamp", timestamp), ("str", text), ("seq", list), ("map", mapping), ("set", set),
   ("omap", orderedMapping), ("pairs", pairs), ("merge", merge), ("value", value)]

def ofName (name : String) : Tag :=
  ((names.map fun (short, t) => (common ++ short, t)).lookup name).getD (other name)

/-! ## Forms of plain scalars -/

def isNull (s : String) : Bool := ["~", "null", "Null", "NULL"].contains s

def isBool (s : String) : Bool :=
  ["yes", "Yes", "YES", "no", "No", "NO", "true", "True", "TRUE", "false", "False", "FALSE",
   "on", "On", "ON", "off", "Off", "OFF"].contains s

/-- Digits and the underscores among them. -/
def isDigitOrLow (c : Char) : Bool := c.isDigit || c == '_'

def startsWithDigit (cs : List Char) : Bool := cs.head?.any Char.isDigit

def splitColons : List Char → List (List Char)
  | [] => [[]]
  | c :: cs =>
    match c, splitColons cs with
    | ':', parts => [] :: parts
    | c, part :: parts => (c :: part) :: parts
    | c, [] => [[c]]

/-- One or two digits that are less than sixty. -/
def isBelowSixty : List Char → Bool
  | [a] => a.isDigit
  | [a, b] => a.isDigit && a ≤ '5' && b.isDigit
  | _ => false

/-- Digits and further parts of sixty behind colons. -/
def isSixties (cs : List Char) : Bool :=
  match splitColons cs with
  | first :: p :: parts =>
    startsWithDigit first && first.all isDigitOrLow && (p :: parts).all isBelowSixty
  | _ => false

/-- Digits of a base with underscores, one character at least. -/
def isRunIn (base : Nat) (cs : List Char) : Bool :=
  !cs.isEmpty && cs.all fun c => c == '_' || (digitOf? c).any (· < base)

def isInt (cs : List Char) : Bool :=
  match (takeSign cs).2 with
  | ['0'] => true
  | '0' :: 'b' :: rest => isRunIn 2 rest
  | '0' :: 'x' :: rest => isRunIn 16 rest
  | '0' :: rest => isRunIn 8 rest
  | c :: rest => c.isDigit && (rest.all isDigitOrLow || isSixties (c :: rest))
  | [] => false

/-- Nothing, or an exponent with a sign. -/
def isExponent : List Char → Bool
  | [] => true
  | e :: sign :: d :: rest =>
    (e == 'e' || e == 'E') && (sign == '-' || sign == '+') && (d :: rest).all Char.isDigit
  | _ => false

/-- Digits before a point, a fraction and an exponent, or parts of sixty with a fraction; a sign may stand
before these, but none before a fraction alone. -/
def isFloat (cs : List Char) : Bool :=
  let unsigned := (takeSign cs).2
  let word := String.ofList unsigned
  let whole := unsigned.takeWhile (· != '.')
  match unsigned.dropWhile (· != '.') with
  | '.' :: fraction =>
    let hasTail := isExponent (fraction.dropWhile isDigitOrLow)
    [".inf", ".Inf", ".INF"].contains word ||
      (whole.isEmpty && cs == unsigned && ([".nan", ".NaN", ".NAN"].contains word ||
        (startsWithDigit fraction && hasTail))) ||
      (startsWithDigit whole && whole.all isDigitOrLow && hasTail) ||
      (isSixties whole && fraction.all isDigitOrLow)
  | _ => false

/-- From `least` to `most` digits and what follows them. -/
def digits? (least most : Nat) (cs : List Char) : Option (Nat × List Char) :=
  let ds := cs.takeWhile Char.isDigit
  if least ≤ ds.length ∧ ds.length ≤ most then
    some (ofDigits 10 (ds.filterMap digitOf?), cs.drop ds.length)
  else none

def expect? (c : Char) (cs : List Char) : Option (List Char) :=
  if cs.head? = some c then some cs.tail else none

/-- The parts of a timestamp as they are written. -/
structure Stamp where
  year : Nat
  month : Nat
  day : Nat
  /-- hour, minute, second, and the digits of a fraction -/
  clock : Option (Nat × Nat × Nat × List Char) := none
  /-- a sign, which is minus or not, hours and minutes -/
  offset : Option (Bool × Nat × Nat) := none
deriving Repr

/-- The offset at the end of a timestamp; none if nothing is left. -/
def offset? (cs : List Char) : Option (Option (Bool × Nat × Nat)) :=
  match cs, cs.dropWhile isSpace with
  | [], _ => some none
  | _, ['Z'] => some (some (false, 0, 0))
  | _, sign :: rest => do
    guard (sign = '+' ∨ sign = '-')
    let (hours, rest) ← digits? 1 2 rest
    let minutes ← match rest with
      | [] => some 0
      | rest => do
        let (minutes, rest) ← digits? 2 2 (← expect? ':' rest)
        guard rest.isEmpty
        some minutes
    some (some (sign = '-', hours, minutes))
  | _, [] => none

/-- A day, with or without a clock reading behind a `T` or blanks. -/
def stamp? (cs : List Char) : Option Stamp := do
  let (year, cs) ← digits? 4 4 cs
  let (month, cs) ← digits? 1 2 (← expect? '-' cs)
  let (day, cs) ← digits? 1 2 (← expect? '-' cs)
  match cs with
  | [] => some ⟨year, month, day, none, none⟩
  | c :: rest =>
    guard (c = 'T' ∨ c = 't' ∨ isSpace c)
    let (hour, cs) ← digits? 1 2 (if isSpace c then rest.dropWhile isSpace else rest)
    let (minute, cs) ← digits? 2 2 (← expect? ':' cs)
    let (second, cs) ← digits? 2 2 (← expect? ':' cs)
    let (fraction, cs) := match cs with
      | '.' :: rest => (rest.takeWhile Char.isDigit, rest.dropWhile Char.isDigit)
      | cs => ([], cs)
    let offset ← offset? cs
    some ⟨year, month, day, some (hour, minute, second, fraction), offset⟩

/-- A day alone is written with all its digits. -/
def isTimestamp (cs : List Char) : Bool :=
  (stamp? cs).any fun s => s.clock.isSome || cs.length == 10

/-- A text without one newline at its end. -/
def withoutNewline (cs : List Char) : List Char :=
  if cs.getLast? = some '\n' then cs.dropLast else cs

/-- The type of a plain scalar. -/
def ofPlain (text : String) : Tag :=
  let cs := withoutNewline text.toList
  let s := String.ofList cs
  if text.isEmpty || isNull s then null
  else if isBool s then bool
  else if isInt cs then int
  else if isFloat cs then float
  else if isTimestamp cs then timestamp
  else if s = "<<" then merge
  else if s = "=" then value
  else if ["!", "&", "*"].contains s then other (common ++ "yaml")
  else .text

end Tag
end Winnow.Yaml
