import Winnow.Value.Order
/-! # The order of sets

A set of numbers is listed in the order of its slots. A number's slot follows from its residue by a prime,
so it does not depend on how the number is written. A table has a power of two of slots; where a slot is
taken, the next few are tried and then others. When three fifths of the slots are taken, the items move to
a table four times as large as their count. Sets that hold anything but numbers are listed as they grew. -/

namespace Winnow.Slots

/-- The prime of residues: a power of two less one, so that halves have residues too. -/
def prime : Nat := 2305843009213693951

/-- How many powers of two have residues of their own. -/
def period : Nat := 61

/-- The residue of a number, with its sign; no number has the residue minus one. -/
def residue? (x : Exact) : Option Int :=
  match x with
  | .nan => none
  | .infinite negative => some (if negative then -314159 else 314159)
  | .finite m e =>
    let n : Int := (m.natAbs * Nat.pow 2 (e % period).toNat % prime : Nat)
    let r := if m < 0 then -n else n
    some (if r = -1 then -2 else r)

/-- Residues as words of 64 bits. -/
def wordSize : Nat := Nat.pow 2 64

def word (r : Int) : Nat := (r % wordSize).toNat

/-- An item with its word, in its slot. -/
abbrev Table := Array (Option (Nat × Value))

def leastSlots : Nat := 8

/-- How many slots behind a taken one are tried. -/
def neighbours : Nat := 9

def emptyTable (slots : Nat) : Table := Array.replicate slots none

/-- The first free slot for a word: `slot` and its neighbours, and then others, which depend more and more
on the upper bits of the word. -/
def free (t : Table) : Nat → Nat → Nat → Nat
  | 0, slot, _ => slot
  | fuel + 1, slot, bits =>
    let tries := if slot + neighbours < t.size then neighbours + 1 else 1
    match (List.range tries).find? fun n => (t[slot + n]?.join).isNone with
    | some n => slot + n
    | none =>
      let bits := bits / 32
      free t fuel ((slot * 5 + 1 + bits) % t.size) bits

def place (t : Table) (item : Nat × Value) : Table :=
  t.setIfInBounds (free t (16 + t.size) (item.1 % t.size) item.1) (some item)

def items (t : Table) : List (Nat × Value) := t.toList.filterMap id

/-- The number of slots for more than `n` items. -/
def slotsFor (n : Nat) : Nat := max leastSlots (Nat.pow 2 (n.log2 + 1))

/-- Counts beyond this one grow by two and not by four. -/
def manyItems : Nat := 50000

/-- The table with one more item, which is the `count`-th. -/
def add (t : Table) (count : Nat) (item : Nat × Value) : Table :=
  let t := place t item
  if count * 5 < (t.size - 1) * 3 then t
  else
    (items t).foldl place (emptyTable (slotsFor (if manyItems < count then count * 2 else count * 4)))

/-- Adds items one after the other. -/
def addAll (t : Table) (count : Nat) : List (Nat × Value) → Table
  | [] => t
  | item :: rest => addAll (add t (count + 1) item) (count + 1) rest

/-- The items of a set in the order in which it lists them. -/
def order (vs : List Value) : List Value :=
  match vs.mapM fun v => (v.number?.bind residue?).map fun r => (word r, v) with
  | some numbers => (items (addAll (emptyTable leastSlots) 0 numbers)).map (·.2)
  | none => vs

end Winnow.Slots

namespace Winnow.Value

/-- The set of some values. -/
def ofItems (values : List Value) : Value := .set (Slots.order (values.foldl insertItem []))

end Winnow.Value
