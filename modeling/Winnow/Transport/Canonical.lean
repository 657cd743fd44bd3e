import Winnow.Transport.MessagePack
import Winnow.Digest
/-! # Canonical form

A value of plain parts that does not depend on the order of mapping entries and set items. Every part
that is not plain carries a tag; tags start with a NUL, which keeps them apart from ordinary text in
practice. Equal canonical bytes are equal cache keys. -/

namespace Winnow.Canonical

def mapTag : String := "\x00map"
def listTag : String := "\x00list"
def setTag : String := "\x00set"
def momentTag : String := "\x00datetime"
def dateTag : String := "\x00date"
def patternTag : String := "\x00re"
def callableTag : String := "\x00fn"
def intTag : String := "\x00int"
def otherTag : String := "\x00other"

def tagged (tag : String) (parts : List Value) : Value := .list (.text tag :: parts)

def orderKeys (entries : List (String × Value)) : List (String × Value) :=
  entries.mergeSort fun a b => !decide (b.1 < a.1)

def orderItems (items : List Value) : List Value :=
  ((items.map fun v => (v.literal, v)).mergeSort fun a b => !decide (b.1 < a.1)).map (·.2)

def ofCallable (c : Callable) : Value :=
  tagged callableTag [.text (match c with | .function _ => "function" | .type _ => "type"), .text c.name]

/-- The canonical form. -/
def ofValue : Value → Value
  | .int i => if (MessagePack.encodeInt? i).isSome then .int i else tagged intTag [.text (toString i)]
  | .object entries =>
    tagged mapTag [.list ((orderKeys (ofEntries entries)).map fun (k, v) => .list [.text k, v])]
  | .list items => tagged listTag [.list (ofItems items)]
  | .tuple items => tagged listTag [.list (ofItems items)]
  | .extension code data => tagged listTag [.list [.int code, .bytes data]]
  | .set items => tagged setTag [.list (orderItems (ofItems items))]
  | .moment m => tagged momentTag [.text m.iso]
  | .date d => tagged dateTag [.text d.iso]
  | .pattern p => tagged patternTag [.text p.source, .int p.flags]
  | .callable c => ofCallable c
  | .span us => tagged otherTag [.text "timedelta", .text (spanLiteral us)]
  | .record fields => tagged otherTag [.text "SimpleNamespace", .text (Value.record fields).literal]
  | .missing => tagged otherTag [.text "_Missing", .text "MISSING"]
  | .other name text => tagged otherTag [.text name, .text text]
  | v => v
where
  ofItems : List Value → List Value
  | [] => []
  | x :: xs => ofValue x :: ofItems xs
  ofEntries : List (Value × Value) → List (String × Value)
  | [] => []
  | (k, v) :: es => (k.display, ofValue v) :: ofEntries es

/-- The bytes of the canonical form; too large a value has none. -/
def bytes (v : Value) : Outcome (List UInt8) :=
  match MessagePack.encode (ofValue v) with
  | .ok bytes => .ok bytes
  | .error _ => .error (.fault .badValue)

/-- Digest of the canonical bytes, in hexadecimal. -/
def signature (v : Value) (size : Int) : Outcome String := do
  let message ← bytes v
  if 1 ≤ size ∧ size ≤ 64 then return Digest.hexText (Digest.blake2b size.toNat message)
  else throw (.fault .badValue)

/-- The size of the digests that keys use. -/
def keySize : Int := 16

end Winnow.Canonical
