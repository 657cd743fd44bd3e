import Winnow.Transport.Bytes
import Winnow.Value.Order
import Winnow.Pattern.Match
/-! # MessagePack

The binary transport of expressions. Dates, moments and patterns travel as extensions with codes of
their own; sets and tuples travel as arrays. A reader may give extensions a meaning and restrict the
keys of maps. -/

namespace Winnow.MessagePack

def momentCode : Int := 1
def dateCode : Int := 2
def patternCode : Int := 3
def timestampCode : Int := -1

/-- The transport has no form for what is too long or nested too deep. -/
def orTooLarge {α : Type} : Option α → Outcome α
  | some a => .ok a
  | none => .error (.transport .packing)

/-- The head of a value with a length: a short form below `shortBelow`, else the narrowest of the
given marks with widths that holds the length. -/
def lengthHead? (shortMark shortBelow : Nat) (marks : List (Nat × Nat)) (n : Nat) :
    Option (List UInt8) :=
  if n < shortBelow then some [UInt8.ofNat (shortMark + n)]
  else
    (marks.find? fun m => n < Nat.pow 256 m.2).map
      fun (mark, width) => UInt8.ofNat mark :: Bytes.ofNat width n

def textHead? : Nat → Option (List UInt8) := lengthHead? 0xa0 32 [(0xd9, 1), (0xda, 2), (0xdb, 4)]
def bytesHead? : Nat → Option (List UInt8) := lengthHead? 0 0 [(0xc4, 1), (0xc5, 2), (0xc6, 4)]
def arrayHead? : Nat → Option (List UInt8) := lengthHead? 0x90 16 [(0xdc, 2), (0xdd, 4)]
def mapHead? : Nat → Option (List UInt8) := lengthHead? 0x80 16 [(0xde, 2), (0xdf, 4)]

/-- A whole number in the narrowest form; `none` outside 64 bits. -/
def encodeInt? (i : Int) : Option (List UInt8) :=
  if 0 ≤ i then
    let n := i.toNat
    if n < 128 then some [UInt8.ofNat n]
    else
      ([(0xcc, 1), (0xcd, 2), (0xce, 4), (0xcf, 8)].find? fun m => n < Nat.pow 256 m.2).map
        fun (mark, width) => UInt8.ofNat mark :: Bytes.ofNat width n
  else if -32 ≤ i then some (Bytes.ofInt 1 i)
  else
    ([(0xd0, 1), (0xd1, 2), (0xd2, 4), (0xd3, 8)].find? fun m => -(Nat.pow 256 m.2 / 2 : Nat) ≤ i).map
      fun (mark, width) => UInt8.ofNat mark :: Bytes.ofInt width i

def encodeText (s : String) : Outcome (List UInt8) :=
  let bytes := Bytes.ofText s
  (orTooLarge (textHead? bytes.length)).map (· ++ bytes)

def encodeBytes (bytes : List UInt8) : Outcome (List UInt8) :=
  (orTooLarge (bytesHead? bytes.length)).map (· ++ bytes)

def encodeFloat (f : Float) : List UInt8 := 0xcb :: Bytes.ofNat 8 f.toBits.toNat

/-- The head of an extension; some lengths have a mark of their own. -/
def extensionHead? (n : Nat) : Option (List UInt8) :=
  match [(1, 0xd4), (2, 0xd5), (4, 0xd6), (8, 0xd7), (16, 0xd8)].lookup n with
  | some mark => some [UInt8.ofNat mark]
  | none => lengthHead? 0 0 [(0xc7, 1), (0xc8, 2), (0xc9, 4)] n

def encodeExtension (code : Int) (data : List UInt8) : Outcome (List UInt8) :=
  (orTooLarge (extensionHead? data.length)).map (· ++ Bytes.ofInt 1 code ++ data)

/-- Source and flags of a pattern, as an array of two. -/
def patternData (p : Pattern) : Outcome (List UInt8) := do
  let head ← orTooLarge (arrayHead? 2)
  let source ← encodeText p.source
  let flags ← orTooLarge (encodeInt? p.flags)
  return head ++ source ++ flags

/-- How many values may lie around one another. -/
def maxNesting : Nat := 512

/-- The transport form of a value that has room for so many values around one another. -/
def encodeWithin : Nat → Value → Outcome (List UInt8)
  | 0, _ => orTooLarge none
  | _ + 1, .null => .ok [0xc0]
  | _ + 1, .bool b => .ok [if b then 0xc3 else 0xc2]
  | _ + 1, .int i =>
    match encodeInt? i with
    | some bytes => .ok bytes
    | none => .error (.transport (.unsupported "int"))
  | _ + 1, .float f => .ok (encodeFloat f)
  | _ + 1, .text s => encodeText s
  | _ + 1, .bytes b => encodeBytes b
  | _ + 1, .date d => encodeExtension dateCode (Bytes.ofText d.iso)
  | _ + 1, .moment m => encodeExtension momentCode (Bytes.ofText m.iso)
  | _ + 1, .pattern p => do encodeExtension patternCode (← patternData p)
  | _ + 1, .extension code data => encodeExtension code data
  | room + 1, .list items | room + 1, .tuple items | room + 1, .set items => do
    let head ← orTooLarge (arrayHead? items.length)
    let items ← encodeItems room items
    return head ++ items
  | room + 1, .object entries => do
    let head ← orTooLarge (mapHead? entries.length)
    let entries ← encodeEntries room entries
    return head ++ entries
  | _ + 1, .callable _ => .error (.transport .callable)
  | _ + 1, .span us => .error (.transport (.unsupported (Value.span us).typeName))
  | _ + 1, .record fields => .error (.transport (.unsupported (Value.record fields).typeName))
  | _ + 1, .missing => .error (.transport (.unsupported Value.missing.typeName))
  | _ + 1, .other name _ => .error (.transport (.unsupported name))
where
  encodeItems : Nat → List Value → Outcome (List UInt8)
  | _, [] => .ok []
  | room, x :: xs => do
    let head ← encodeWithin room x
    let rest ← encodeItems room xs
    return head ++ rest
  encodeEntries : Nat → List (Value × Value) → Outcome (List UInt8)
  | _, [] => .ok []
  | room, (k, v) :: es => do
    let key ← encodeWithin room k
    let value ← encodeWithin room v
    let rest ← encodeEntries room es
    return key ++ value ++ rest

/-- The transport form of a value. -/
def encode (v : Value) : Outcome (List UInt8) := encodeWithin maxNesting v

def malformed {α : Type} : Outcome α := .error (.transport .unpacking)

def orMalformed {α : Type} : Option α → Outcome α
  | some a => .ok a
  | none => malformed

/-- What follows the head of a value. -/
inductive Body
  | value (v : Value)
  | text (length : Nat)
  | bytes (length : Nat)
  | array (count : Nat)
  | map (count : Nat)
  | extension (length : Nat)

/-- A number of `width` bytes as a body. -/
def sized (body : Nat → Body) (width : Nat) (bytes : List UInt8) : Option (Body × List UInt8) :=
  (Bytes.split? width bytes).map fun (head, rest) => (body (Bytes.toNat head), rest)

def signed (width : Nat) (bytes : List UInt8) : Option (Body × List UInt8) :=
  (Bytes.split? width bytes).map fun (head, rest) => (.value (.int (Bytes.toInt head)), rest)

/-- The float of single precision with the given bits. -/
def widenFloat (bits : Nat) : Float :=
  let sign := bits / Nat.pow 2 31
  let exponent := bits / Nat.pow 2 23 % 256
  let mantissa := bits % Nat.pow 2 23
  if exponent = 255 then
    if mantissa = 0 then floatInfinity (sign = 1) else floatNaN
  else
    let m := if exponent = 0 then mantissa else mantissa + Nat.pow 2 23
    let e : Int := (if exponent = 0 then 1 else exponent : Nat) - 150
    let (num, den) := if 0 ≤ e then (m * Nat.pow 2 e.toNat, 1) else (m, Nat.pow 2 (-e).toNat)
    floatOfBits (sign = 1) ((nearestBits? num den).getD 0)

/-- Reads a head. -/
def readHead? : List UInt8 → Option (Body × List UInt8)
  | [] => none
  | b :: rest =>
    let n := b.toNat
    if n < 0x80 then some (.value (.int n), rest)
    else if n < 0x90 then some (.map (n - 0x80), rest)
    else if n < 0xa0 then some (.array (n - 0x90), rest)
    else if n < 0xc0 then some (.text (n - 0xa0), rest)
    else if 0xe0 ≤ n then some (.value (.int ((n : Int) - 256)), rest)
    else
      match n with
      | 0xc0 => some (.value .null, rest)
      | 0xc2 => some (.value (.bool false), rest)
      | 0xc3 => some (.value (.bool true), rest)
      | 0xc4 => sized .bytes 1 rest
      | 0xc5 => sized .bytes 2 rest
      | 0xc6 => sized .bytes 4 rest
      | 0xc7 => sized .extension 1 rest
      | 0xc8 => sized .extension 2 rest
      | 0xc9 => sized .extension 4 rest
      | 0xca => sized (fun bits => .value (.float (widenFloat bits))) 4 rest
      | 0xcb => sized (fun bits => .value (.float (Float.ofBits (UInt64.ofNat bits)))) 8 rest
      | 0xcc => sized (fun n => .value (.int n)) 1 rest
      | 0xcd => sized (fun n => .value (.int n)) 2 rest
      | 0xce => sized (fun n => .value (.int n)) 4 rest
      | 0xcf => sized (fun n => .value (.int n)) 8 rest
      | 0xd0 => signed 1 rest
      | 0xd1 => signed 2 rest
      | 0xd2 => signed 4 rest
      | 0xd3 => signed 8 rest
      | 0xd4 => some (.extension 1, rest)
      | 0xd5 => some (.extension 2, rest)
      | 0xd6 => some (.extension 4, rest)
      | 0xd7 => some (.extension 8, rest)
      | 0xd8 => some (.extension 16, rest)
      | 0xd9 => sized .text 1 rest
      | 0xda => sized .text 2 rest
      | 0xdb => sized .text 4 rest
      | 0xdc => sized .array 2 rest
      | 0xdd => sized .array 4 rest
      | 0xde => sized .map 2 rest
      | 0xdf => sized .map 4 rest
      | _ => none

/-- How a reader treats extensions and the keys of maps. -/
structure Reading where
  extension : Int → List UInt8 → Outcome Value
  admitsKey : Value → Bool

abbrev Reader := List UInt8 → Outcome (Value × List UInt8)

/-- Reads `n` values. -/
def readItems (read : Reader) : Nat → List UInt8 → Outcome (List Value × List UInt8)
  | 0, bytes => .ok ([], bytes)
  | n + 1, bytes => do
    let (x, bytes) ← read bytes
    let (xs, bytes) ← readItems read n bytes
    return (x :: xs, bytes)

/-- Reads `n` entries into a mapping. -/
def readEntries (read : Reader) (admits : Value → Bool) :
    Nat → List (Value × Value) → List UInt8 → Outcome (List (Value × Value) × List UInt8)
  | 0, entries, bytes => .ok (entries, bytes)
  | n + 1, entries, bytes => do
    let (k, bytes) ← read bytes
    let (v, bytes) ← read bytes
    if !(admits k && k.isHashable) then malformed
    readEntries read admits n (Value.insert entries k v) bytes

/-- Reads one value. No container may announce more parts than the whole input has bytes for;
`limit` is the input's length. -/
def read (how : Reading) (limit : Nat) : Nat → Reader
  | 0, _ => malformed
  | fuel + 1, bytes => do
    let (body, bytes) ← orMalformed (readHead? bytes)
    match body with
    | .value v => return (v, bytes)
    | .text n =>
      let (head, rest) ← orMalformed (Bytes.split? n bytes)
      return (.text (← orMalformed (Bytes.toText? head)), rest)
    | .bytes n =>
      let (head, rest) ← orMalformed (Bytes.split? n bytes)
      return (.bytes head, rest)
    | .array n =>
      if limit < n then malformed
      let (items, rest) ← readItems (read how limit fuel) n bytes
      return (.list items, rest)
    | .map n =>
      if limit / 2 < n then malformed
      let (entries, rest) ← readEntries (read how limit fuel) how.admitsKey n [] bytes
      return (.object entries, rest)
    | .extension n =>
      let (code, rest) ← orMalformed (Bytes.split? 1 bytes)
      let (data, rest) ← orMalformed (Bytes.split? n rest)
      return (← how.extension (Bytes.toInt code) data, rest)

/-- Reads a value that takes up the whole input. -/
def readAll (how : Reading) (bytes : List UInt8) : Outcome Value := do
  let (v, rest) ← read how bytes.length (bytes.length + 1) bytes
  if rest.isEmpty then return v else malformed

/-- A point in time as seconds and nanoseconds. -/
def timestamp? (data : List UInt8) : Option Value :=
  let parts? : Option (Int × Nat) :=
    match data.length with
    | 4 => some (Bytes.toNat data, 0)
    | 8 => some (Bytes.toNat data % Nat.pow 2 34, Bytes.toNat data / Nat.pow 2 34)
    | 12 => some (Bytes.toInt (data.drop 4), Bytes.toNat (data.take 4))
    | _ => none
  match parts? with
  | some (seconds, nanos) =>
    if nanos < Nat.pow 10 9 then
      some (.other "Timestamp" s!"Timestamp(seconds={seconds}, nanoseconds={nanos})")
    else none
  | none => none

/-- Extensions of foreign types stay as they are. -/
def foreignExtension (code : Int) (data : List UInt8) : Outcome Value :=
  if code = timestampCode then orMalformed (timestamp? data) else .ok (.extension code data)

/-- The keys of maps inside an extension are text or bytes. -/
def plainReading : Reading where
  extension := foreignExtension
  admitsKey
    | .text _ | .bytes _ => true
    | _ => false

/-- The parts that a value falls into when it stands for a sequence. -/
def parts : Value → List Value
  | .list items => items
  | .text s => s.toList.map fun c => .text c.toString
  | .bytes b => b.map fun x => .int x.toNat
  | .object entries => entries.map (·.1)
  | _ => []

/-- A malformed pattern and a flag or count that is too large are faults, all else is malformed
data. -/
def readPattern (data : List UInt8) : Outcome Value := do
  match parts (← readAll plainReading data) with
  | [.text source, flags] =>
    match flags.number?, flags with
    | some _, .float _ | none, _ => malformed
    | some n, _ =>
      match Pattern.restore source (n.truncate?.getD 0) with
      | .ok p => return .pattern p
      | .error .malformed => .error (.fault .badPattern)
      | .error .countTooLarge => .error (.fault .overflow)
      | .error .badFlags => malformed
  | _ => malformed

def expressionExtension (code : Int) (data : List UInt8) : Outcome Value :=
  if code = momentCode then
    orMalformed (((Bytes.toText? data).bind Moment.ofIso?).map .moment)
  else if code = dateCode then
    orMalformed (((Bytes.toText? data).bind Date.ofIso?).map .date)
  else if code = patternCode then readPattern data
  else foreignExtension code data

def expressionReading : Reading := ⟨expressionExtension, fun _ => true⟩

/-- The value of a transport form. -/
def decode (bytes : List UInt8) : Outcome Value := readAll expressionReading bytes

end Winnow.MessagePack
