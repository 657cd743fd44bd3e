import Winnow.Yaml.Tag
import Winnow.Value.Basic
import Winnow.Text.Case
/-! # Values of scalars

The value of a text under a type. The type may have been written, so the text need not have the form of
the type; then there is no value. -/

namespace Winnow.Yaml.Atom

def fault {α : Type} (f : Fault) : Outcome α := .error (.fault f)

def ofOption {α : Type} (f : Fault) : Option α → Outcome α
  | some a => .ok a
  | none => fault f

def isTrue (word : String) : Bool := ["yes", "true", "on"].contains word
def isFalse (word : String) : Bool := ["no", "false", "off"].contains word

def bool (s : String) : Outcome Bool :=
  let word := Text.lowercase s
  if isTrue word then .ok true else if isFalse word then .ok false else fault .noKey

/-- A sum of parts, each of which counts sixty times as much as the next. -/
def ofSixties (parts : List Int) : Int := parts.foldl (fun n part => n * 60 + part) 0

/-- The magnitude of a whole number: binary, hexadecimal, octal behind a zero, in parts of sixty, or
decimal. -/
def magnitude (cs : List Char) : Outcome Int :=
  let read (base : Nat) (cs : List Char) : Outcome Int := ofOption .badValue (readWhole? base cs)
  match cs with
  | [] => fault .noItem
  | ['0'] => .ok 0
  | '0' :: 'b' :: rest => read 2 rest
  | '0' :: 'x' :: rest => read 16 rest
  | '0' :: _ => read 8 cs
  | _ =>
    if cs.contains ':' then do
      let parts ← (Tag.splitColons cs).mapM (read 10)
      return ofSixties parts
    else read 10 cs

def int (s : String) : Outcome Int :=
  let cs := s.toList.filter (· != '_')
  let (negative, rest) := takeSign cs
  if cs.isEmpty then fault .noItem
  else (magnitude rest).map fun n => if negative then -n else n

/-- The sum of parts from the last to the first, whose weights grow by sixty. -/
def addSixties (weight : Int) (sum : Float) : List Float → Outcome Float
  | [] => .ok sum
  | part :: parts => do
    let w ← ofOption .overflow (floatOfInt? weight)
    addSixties (weight * 60) (sum + part * w) parts

def unsignedFloat (cs : List Char) : Outcome Float :=
  let read (cs : List Char) : Outcome Float := ofOption .badValue (readFloat? cs)
  let word := String.ofList cs
  if word = ".inf" then .ok (floatInfinity false)
  else if word = ".nan" then .ok floatNaN
  else if cs.contains ':' then do
    let parts ← (Tag.splitColons cs).mapM read
    addSixties 1 0.0 parts.reverse
  else read cs

def float (s : String) : Outcome Float :=
  let cs := (Text.lowercase s).toList.filter (· != '_')
  let (negative, rest) := takeSign cs
  if cs.isEmpty then fault .noItem
  else (unsignedFloat rest).map fun f => if negative then -1.0 * f else f

/-! ## Bytes -/

/-- The value of a digit in base sixty-four. -/
def sextet? (c : Char) : Option Nat :=
  if 'A' ≤ c ∧ c ≤ 'Z' then some (c.toNat - 65)
  else if 'a' ≤ c ∧ c ≤ 'z' then some (c.toNat - 71)
  else if c.isDigit then some (c.toNat + 4)
  else if c = '+' then some 62
  else if c = '/' then some 63
  else none

/-- Bytes in groups of four digits. `digits` are those of the group so far and `pads` the padding behind
them; padding that fills a group up ends the bytes, other padding and other characters do not count. -/
def groups : List Nat → Nat → List Char → Outcome (List UInt8)
  | digits, _, [] => if digits.isEmpty then .ok [] else failure .content
  | digits, pads, c :: cs =>
    if c = '=' then
      if digits.length < 2 then groups digits pads cs
      else if 4 ≤ digits.length + pads + 1 then .ok []
      else groups digits (pads + 1) cs
    else
      match sextet? c, digits with
      | none, _ => groups digits pads cs
      | some d, [] => groups [d] 0 cs
      | some d, [a] => (groups [a, d] 0 cs).map (UInt8.ofNat (a * 4 + d / 16) :: ·)
      | some d, [a, b] => (groups [a, b, d] 0 cs).map (UInt8.ofNat (b % 16 * 16 + d / 4) :: ·)
      | some d, _ :: _ :: b :: _ => (groups [] 0 cs).map (UInt8.ofNat (b % 4 * 64 + d) :: ·)

def bytes (s : String) : Outcome (List UInt8) :=
  if s.toList.all (·.toNat < 128) then groups [] 0 s.toList else failure .content

/-! ## Timestamps -/

/-- The microseconds of the first six digits of a fraction. -/
def microseconds (digits : List Char) : Nat :=
  ofDigits 10 ((digits.take 6 ++ List.replicate (6 - digits.length) '0').filterMap digitOf?)

def offset (negative : Bool) (hours minutes : Nat) : Int :=
  let size : Int := hours * hour + minutes * minute
  if negative then -size else size

def timestamp (s : String) : Outcome Value := do
  let stamp ← ofOption .noAttribute (Tag.stamp? (Tag.withoutNewline s.toList))
  let offset := stamp.offset.map fun (negative, h, m) => offset negative h m
  if !offset.all isOffset then fault .badValue
  let date ← ofOption .badValue (Date.make? stamp.year stamp.month stamp.day)
  match stamp.clock with
  | none => return .date date
  | some (h, m, s, fraction) =>
    let moment ← ofOption .badValue (Moment.make? date h m s (microseconds fraction) offset)
    return .moment moment

end Winnow.Yaml.Atom
