import Winnow.Transport.JsonWriter
import Winnow.Pattern.Match
/-! # Reading JSON

Reads one value. Objects with reserved keys become dates, moments and patterns as soon as they end, so
of two errors the earlier in the text wins. Of equal keys the last value stays, at the place of the
first. Infinities and the float that is no number are read by name. -/

namespace Winnow.Json

def undecodable {α : Type} : Outcome α := .error (.transport .decoding)

def skipBlanks (cs : List Char) : List Char :=
  cs.dropWhile fun c => c == ' ' || c == '\t' || c == '\n' || c == '\r'

def hexValue? (c : Char) : Option Nat :=
  if '0' ≤ c ∧ c ≤ '9' then some (c.toNat - '0'.toNat)
  else if 'a' ≤ c ∧ c ≤ 'f' then some (c.toNat - 'a'.toNat + 10)
  else if 'A' ≤ c ∧ c ≤ 'F' then some (c.toNat - 'A'.toNat + 10)
  else none

def hexUnit? (a b c d : Char) : Option Nat := do
  let a ← hexValue? a
  let b ← hexValue? b
  let c ← hexValue? c
  let d ← hexValue? d
  return ((a * 16 + b) * 16 + c) * 16 + d

def isHighSurrogate (n : Nat) : Bool := 0xd800 ≤ n && n < 0xdc00
def isLowSurrogate (n : Nat) : Bool := 0xdc00 ≤ n && n < 0xe000

/-- Stands for half of a pair that lacks the other half. -/
def replacement : Char := '\uFFFD'

/-- What a short escape stands for. -/
def shortEscape? (c : Char) : Option Char :=
  match c with
  | '"' => some '"'
  | '\\' => some '\\'
  | '/' => some '/'
  | 'b' => some '\x08'
  | 'f' => some '\x0c'
  | 'n' => some '\n'
  | 'r' => some '\r'
  | 't' => some '\t'
  | _ => none

/-- The codes up to the closing quote, and the rest. Escaped codes may be halves of pairs. -/
def readCodes? : List Char → Option (List Nat × List Char)
  | [] => none
  | '"' :: rest => some ([], rest)
  | '\\' :: 'u' :: a :: b :: c :: d :: rest => do
    let n ← hexUnit? a b c d
    let (ns, rest) ← readCodes? rest
    return (n :: ns, rest)
  | '\\' :: e :: rest => do
    let c ← shortEscape? e
    let (ns, rest) ← readCodes? rest
    return (c.toNat :: ns, rest)
  | c :: rest => do
    if c.toNat < 0x20 ∨ c = '\\' then none
    let (ns, rest) ← readCodes? rest
    return (c.toNat :: ns, rest)

/-- Characters of codes; two halves in order are one character. -/
def joinHalves : List Nat → List Char
  | [] => []
  | [n] => [if isHighSurrogate n || isLowSurrogate n then replacement else Char.ofNat n]
  | n :: m :: rest =>
    if isHighSurrogate n && isLowSurrogate m then
      Char.ofNat (0x10000 + (n - 0xd800) * 0x400 + (m - 0xdc00)) :: joinHalves rest
    else
      (if isHighSurrogate n || isLowSurrogate n then replacement else Char.ofNat n)
        :: joinHalves (m :: rest)

/-- The text up to the closing quote, and the rest. -/
def readText? (cs : List Char) : Option (String × List Char) :=
  (readCodes? cs).map fun (ns, rest) => (String.ofList (joinHalves ns), rest)

/-- The leading decimal digits and the rest. -/
def takeDigits (cs : List Char) : List Char × List Char :=
  (cs.takeWhile Char.isDigit, cs.dropWhile Char.isDigit)

def digitsValue (ds : List Char) : Nat := ds.foldl (fun n c => n * 10 + (c.toNat - '0'.toNat)) 0

/-- Digits before the point: none starts with zero but zero. -/
def readWhole? (cs : List Char) : Option (List Char × List Char) :=
  match cs with
  | '0' :: rest => some (['0'], rest)
  | c :: _ => if c.isDigit then some (takeDigits cs) else none
  | [] => none

def readFraction (cs : List Char) : List Char × List Char :=
  match cs with
  | '.' :: rest =>
    match takeDigits rest with
    | ([], _) => ([], cs)
    | found => found
  | _ => ([], cs)

def readExponent? (cs : List Char) : Option (Int × List Char) :=
  let digits (negative : Bool) (rest : List Char) : Option (Int × List Char) :=
    match takeDigits rest with
    | ([], _) => none
    | (ds, rest) => some (if negative then -(digitsValue ds : Int) else digitsValue ds, rest)
  match cs with
  | e :: rest =>
    if e = 'e' ∨ e = 'E' then
      match rest with
      | '-' :: rest => digits true rest
      | '+' :: rest => digits false rest
      | rest => digits false rest
    else none
  | [] => none

/-- A whole number, or a float when it has a fraction or an exponent. -/
def readNumber (negative : Bool) (cs : List Char) : Outcome (Value × List Char) :=
  match readWhole? cs with
  | none => undecodable
  | some (whole, rest) =>
    let (fraction, afterFraction) := readFraction rest
    let exponent := readExponent? afterFraction
    if fraction.isEmpty ∧ exponent.isNone then
      if whole.length ≤ maxDigits then
        let n : Int := digitsValue whole
        .ok (.int (if negative then -n else n), rest)
      else undecodable
    else
      let (e, rest) := exponent.getD (0, afterFraction)
      .ok (.float (floatOfDecimal negative (digitsValue (whole ++ fraction)) (e - fraction.length)), rest)

/-- The rest after a word. -/
def afterWord? (word : String) (cs : List Char) : Option (List Char) :=
  let w := word.toList
  if w.isPrefixOf cs then some (cs.drop w.length) else none

/-- Values written as one word. -/
def wordValues : List (String × Value) :=
  [("null", .null), ("true", .bool true), ("false", .bool false), ("NaN", .float floatNaN),
   ("Infinity", .float (floatInfinity false)), ("-Infinity", .float (floatInfinity true))]

def readAtom (cs : List Char) : Outcome (Value × List Char) :=
  match wordValues.findSome? fun (w, v) => (afterWord? w cs).map fun rest => (v, rest) with
  | some found => .ok found
  | none =>
    match cs with
    | '"' :: rest =>
      match readText? rest with
      | some (s, rest) => .ok (.text s, rest)
      | none => undecodable
    | '-' :: rest => readNumber true rest
    | cs => readNumber false cs

/-- Has the object the key, and no key but it and its companion? -/
def isReserved (entries : List (Value × Value)) (key companion : String) : Bool :=
  (Value.get? entries key).isSome && entries.all fun e =>
    match e.1 with
    | .text k => k == key || k == companion
    | _ => false

def restoreDate (source : Value) (dateOnly : Bool) : Outcome Value :=
  match source with
  | .text s =>
    match if dateOnly then (Date.ofIso? s).map .date else (Moment.ofIso? s).map .moment with
    | some v => .ok v
    | none => undecodable
  | _ => .error (.fault .typeMismatch)

/-- A text needs whole flags; a pattern is taken as it is, without flags of its own. -/
def restorePattern (source flags : Value) : Outcome Value :=
  if !flags.isHashable then .error (.fault .typeMismatch)
  else
    match source, flags, flags.number? with
    | .pattern p, _, _ => if flags.truth then undecodable else .ok (.pattern p)
    | .text _, .float _, _ | .text _, _, none => .error (.fault .typeMismatch)
    | .text s, _, some n =>
      match Pattern.restore s (n.truncate?.getD 0) with
      | .ok p => .ok (.pattern p)
      | .error .countTooLarge => .error (.fault .overflow)
      | .error _ => undecodable
    | _, _, _ => .error (.fault .typeMismatch)

/-- What the entries of an object stand for. -/
def restore (entries : List (Value × Value)) : Outcome Value :=
  if isReserved entries dateKey dateOnlyKey then
    restoreDate ((Value.get? entries dateKey).getD .null)
      ((Value.get? entries dateOnlyKey).any Value.truth)
  else if isReserved entries patternKey flagsKey then
    restorePattern ((Value.get? entries patternKey).getD .null)
      ((Value.get? entries flagsKey).getD (.int 0))
  else .ok (.object entries)

abbrev Reader := List Char → Outcome (Value × List Char)

/-- Items up to the closing bracket. -/
def readItems (read : Reader) : Nat → List Char → Outcome (List Value × List Char)
  | 0, _ => undecodable
  | fuel + 1, cs => do
    let (x, cs) ← read cs
    match skipBlanks cs with
    | ']' :: rest => return ([x], rest)
    | ',' :: rest =>
      let (xs, rest) ← readItems read fuel (skipBlanks rest)
      return (x :: xs, rest)
    | _ => undecodable

/-- Entries up to the closing brace. -/
def readEntries (read : Reader) :
    Nat → List (Value × Value) → List Char → Outcome (List (Value × Value) × List Char)
  | 0, _, _ => undecodable
  | fuel + 1, entries, cs =>
    match cs with
    | '"' :: cs =>
      match readText? cs with
      | none => undecodable
      | some (key, cs) =>
        match skipBlanks cs with
        | ':' :: cs => do
          let (v, cs) ← read (skipBlanks cs)
          let entries := Value.insert entries (.text key) v
          match skipBlanks cs with
          | '}' :: rest => return (entries, rest)
          | ',' :: rest => readEntries read fuel entries (skipBlanks rest)
          | _ => undecodable
        | _ => undecodable
    | _ => undecodable

/-- Reads one value. -/
def read : Nat → Reader
  | 0, _ => undecodable
  | fuel + 1, cs =>
    match cs with
    | '[' :: rest =>
      match skipBlanks rest with
      | ']' :: rest => .ok (.list [], rest)
      | rest => do
        let (items, rest) ← readItems (read fuel) (rest.length + 1) rest
        return (.list items, rest)
    | '{' :: rest =>
      match skipBlanks rest with
      | '}' :: rest => do return (← restore [], rest)
      | rest => do
        let (entries, rest) ← readEntries (read fuel) (rest.length + 1) [] rest
        return (← restore entries, rest)
    | cs => readAtom cs

/-- The value of a text. -/
def decode (text : String) : Outcome Value := do
  let cs := skipBlanks text.toList
  let (v, rest) ← read (cs.length + 1) cs
  if (skipBlanks rest).isEmpty then return v else undecodable

end Winnow.Json
