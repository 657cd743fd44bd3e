import Winnow.Bound
import Winnow.Value.Order
/-! # Bounded stores of recent entries

A store keeps at most `maxSize` entries, the least recently used first. Reading an entry makes it the
most recent; writing beyond the bound drops the oldest. -/

namespace Winnow

structure Recent (κ ν : Type) where
  maxSize : Nat
  /-- the bound as it was given, of which `maxSize` is the whole part -/
  bound : Value
  /-- the oldest first -/
  entries : List (κ × ν) := []
  hits : Nat := 0
  misses : Nat := 0
  evictions : Nat := 0
deriving Repr

/-- The part of two counts that is the first of them. -/
def hitRate (hits misses : Nat) : Float :=
  if hits + misses = 0 then 0.0 else Float.ofNat hits / Float.ofNat (hits + misses)

/-- The value as a key of a store; values that can change are no keys. -/
def Value.asKey (v : Value) : Outcome Value :=
  if v.isHashable then .ok v else .error (.fault .typeMismatch)

namespace Recent

variable {κ ν : Type} [BEq κ]

/-- The bound of a store that is given none. -/
def defaultSize : Int := 100

/-- An empty store with a bound. -/
def make? (maxSize : Value) : Outcome (Recent κ ν) :=
  (readBound .cacheSize maxSize).map fun n => { maxSize := n, bound := maxSize }

def size (s : Recent κ ν) : Nat := s.entries.length

/-- The values, the oldest first. -/
def values (s : Recent κ ν) : List ν := s.entries.map (·.2)

/-- The value under a key; its age does not change. -/
def find? (s : Recent κ ν) (k : κ) : Option ν := s.entries.lookup k

def contains (s : Recent κ ν) (k : κ) : Bool := (s.find? k).isSome

/-- The entries without the one under a key. -/
def without (entries : List (κ × ν)) (k : κ) : List (κ × ν) := entries.filter fun e => !(k == e.1)

/-- Reads a value, which becomes the most recent one. -/
def get (s : Recent κ ν) (k : κ) : Option ν × Recent κ ν :=
  match s.find? k with
  | some v => (some v, { s with entries := without s.entries k ++ [(k, v)], hits := s.hits + 1 })
  | none => (none, { s with misses := s.misses + 1 })

/-- Writes a value, which becomes the most recent one, and drops the oldest entries beyond the bound. -/
def put (s : Recent κ ν) (k : κ) (v : ν) : Recent κ ν :=
  let entries := without s.entries k ++ [(k, v)]
  let excess := entries.length - s.maxSize
  { s with entries := entries.drop excess, evictions := s.evictions + excess }

/-- Changes the value under a key; its age does not change. -/
def modify (s : Recent κ ν) (k : κ) (f : ν → ν) : Recent κ ν :=
  { s with entries := s.entries.map fun e => if k == e.1 then (e.1, f e.2) else e }

/-- Takes a value out. -/
def pop (s : Recent κ ν) (k : κ) : Option ν × Recent κ ν :=
  (s.find? k, { s with entries := without s.entries k })

/-- Drops all entries; the counts stay. -/
def clear (s : Recent κ ν) : Recent κ ν := { s with entries := [] }

def text (s : Recent κ ν) : String := s!"LRUCache(size={s.size}, max_size={s.bound.display})"

/-- The counts of a store, as a mapping. -/
def statistics (s : Recent κ ν) : Value :=
  .object [(.text "size", .int s.size), (.text "max_size", s.bound), (.text "hits", .int s.hits),
    (.text "misses", .int s.misses), (.text "evictions", .int s.evictions),
    (.text "hit_rate", .float (hitRate s.hits s.misses))]

end Recent
end Winnow
