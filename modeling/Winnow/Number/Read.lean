import Winnow.Number.Exact
import Winnow.Text.Class
/-! # Reading numbers

`readWhole?` reads a whole number as people type it: blanks around it, a sign, digits of any script,
single underscores between digits, in a base or with a mark for one. `readFloat?` reads a decimal fraction
in the same way, and `floatOfDecimal` gives the float nearest to it. -/

namespace Winnow

/-- A character as numbers are read: digits of any script become those of ASCII, and blanks outside of
ASCII become spaces. -/
def numeral (c : Char) : Char :=
  if c.toNat < 127 then c
  else if Text.isBlank c then ' '
  else
    match Text.digit? c with
    | some d => Char.ofNat (48 + d)
    | none => c

/-- The value of a digit or letter as a digit. -/
def digitOf? (c : Char) : Option Nat :=
  if c.isDigit then some (c.toNat - 48)
  else if 'a' ≤ c ∧ c ≤ 'z' then some (c.toNat - 87)
  else if 'A' ≤ c ∧ c ≤ 'Z' then some (c.toNat - 55)
  else none

/-- Digits of a base with single underscores between them. -/
def readDigits? (base : Nat) : List Char → Option (List Nat)
  | [] => none
  | [c] => (digitIn? c).map ([·])
  | c :: '_' :: rest => do
    let d ← digitIn? c
    let ds ← readDigits? base rest
    pure (d :: ds)
  | c :: rest => do
    let d ← digitIn? c
    let ds ← readDigits? base rest
    pure (d :: ds)
where
  digitIn? (c : Char) : Option Nat := (digitOf? c).filter (· < base)

def ofDigits (base : Nat) (ds : List Nat) : Nat := ds.foldl (fun n d => n * base + d) 0

/-- Drops blanks of ASCII at both ends. -/
def trimBlanks (cs : List Char) : List Char :=
  ((cs.dropWhile Text.isAsciiBlank).reverse.dropWhile Text.isAsciiBlank).reverse

/-- The longest run of digits that is read as a number; bases that are powers of two have no limit. -/
def maxDigits : Nat := 4300

/-- The base that a mark after a zero stands for. -/
def markedBase? (mark : Char) : Option Nat :=
  match mark.toLower with
  | 'x' => some 16
  | 'o' => some 8
  | 'b' => some 2
  | _ => none

/-- A number without a sign. An underscore may follow a mark. -/
def readMagnitude? (base : Nat) (cs : List Char) : Option Nat :=
  let digits (base : Nat) (cs : List Char) : Option Nat := do
    let ds ← readDigits? base cs
    if [2, 4, 8, 16, 32].contains base ∨ ds.length ≤ maxDigits then some (ofDigits base ds) else none
  let marked : Option (Nat × List Char) :=
    match cs with
    | '0' :: mark :: '_' :: rest => (markedBase? mark).map (·, rest)
    | '0' :: mark :: rest => (markedBase? mark).map (·, rest)
    | _ => none
  match marked with
  | some (b, rest) => if base = 0 ∨ base = b then digits b rest else digits base cs
  | none =>
    if base = 0 then (digits 10 cs).filter fun n => cs.head? != some '0' || n == 0
    else digits base cs

/-- A whole number in a base from two to thirty-six; with base zero a mark tells the base, and the number
is decimal without one. -/
def readWhole? (base : Nat) (cs : List Char) : Option Int :=
  match trimBlanks (cs.map numeral) with
  | '-' :: rest => (readMagnitude? base rest).map fun n => -(n : Int)
  | '+' :: rest => (readMagnitude? base rest).map fun n => (n : Int)
  | rest => (readMagnitude? base rest).map fun n => (n : Int)

/-- A decimal whole number; `none` when the text is not one. -/
def readIndex? (s : String) : Option Int := readWhole? 10 s.toList

/-- The float nearest to `±digits · 10^exponent`; an infinity beyond the largest float. -/
def floatOfDecimal (negative : Bool) (digits : Nat) (exponent : Int) : Float :=
  let width : Int := (Nat.toDigits 10 digits).length
  if digits = 0 ∨ exponent + width < -400 then floatOfBits negative 0
  else if 400 < exponent + width then floatInfinity negative
  else
    let (num, den) :=
      if 0 ≤ exponent then (digits * Nat.pow 10 exponent.toNat, 1) else (digits, Nat.pow 10 (-exponent).toNat)
    match nearestBits? num den with
    | some bits => floatOfBits negative bits
    | none => floatInfinity negative

/-- A run of digits that may be empty, and what follows it. -/
def readRun? (cs : List Char) : Option (List Nat × List Char) :=
  let isPart (c : Char) : Bool := c.isDigit || c == '_'
  let run := cs.takeWhile isPart
  (if run.isEmpty then some [] else readDigits? 10 run).map (·, cs.dropWhile isPart)

/-- A sign, which is minus or not, and what follows it. -/
def takeSign (cs : List Char) : Bool × List Char :=
  match cs with
  | '-' :: rest => (true, rest)
  | '+' :: rest => (false, rest)
  | cs => (false, cs)

/-- The exponent at the end of a decimal; zero without one. -/
def readExponent? (cs : List Char) : Option Int :=
  match cs with
  | [] => some 0
  | mark :: rest =>
    if mark ≠ 'e' ∧ mark ≠ 'E' then none
    else
      let (negative, cs) := takeSign rest
      match readRun? cs with
      | some (d :: ds, []) =>
        let n : Int := ofDigits 10 (d :: ds)
        some (if negative then -n else n)
      | _ => none

/-- A decimal fraction: digits with a point among them or none, and an exponent. -/
def readDecimal? (negative : Bool) (cs : List Char) : Option Float := do
  let (whole, cs) ← readRun? cs
  let (fraction, cs) ← match cs with
    | '.' :: rest => readRun? rest
    | cs => some ([], cs)
  if whole.isEmpty ∧ fraction.isEmpty then none
  let exponent ← readExponent? cs
  return floatOfDecimal negative (ofDigits 10 (whole ++ fraction)) (exponent - fraction.length)

/-- A float: a decimal fraction, an infinity, or no number. -/
def readFloat? (cs : List Char) : Option Float :=
  let (negative, cs) := takeSign (trimBlanks (cs.map numeral))
  let word := String.ofList (cs.map Char.toLower)
  if word = "inf" ∨ word = "infinity" then some (floatInfinity negative)
  else if word = "nan" then some floatNaN
  else readDecimal? negative cs

end Winnow
