import Winnow.Failure
/-! # Bytes

Numbers as bytes, the most significant first, and text as UTF-8. -/

namespace Winnow.Bytes

/-- The last `width` bytes of a number. -/
def ofNat : Nat → Nat → List UInt8
  | 0, _ => []
  | width + 1, n => UInt8.ofNat (n / Nat.pow 256 width % 256) :: ofNat width n

def toNat (bytes : List UInt8) : Nat := bytes.foldl (fun n b => n * 256 + b.toNat) 0

/-- The number in two's complement. -/
def toInt (bytes : List UInt8) : Int :=
  let n := toNat bytes
  if n < Nat.pow 256 bytes.length / 2 then (n : Int) else (n : Int) - (Nat.pow 256 bytes.length : Nat)

/-- The last `width` bytes of a number in two's complement. -/
def ofInt (width : Nat) (i : Int) : List UInt8 := ofNat width (i % (Nat.pow 256 width : Nat)).toNat

def ofText (s : String) : List UInt8 := s.toUTF8.data.toList

/-- Reads UTF-8; `none` when the bytes are not. -/
def toText? (bytes : List UInt8) : Option String := String.fromUTF8? ⟨bytes.toArray⟩

/-- The first `n` bytes and the rest. -/
def split? (n : Nat) (bytes : List UInt8) : Option (List UInt8 × List UInt8) :=
  if n ≤ bytes.length then some (bytes.take n, bytes.drop n) else none

end Winnow.Bytes
