import Winnow.Memo.Recent
/-! # Stores of results

Results are kept per collection: a bounded number of collections, each with a bounded number of
results. A collection is known by its identity and its length, so one that grows starts anew. -/

namespace Winnow

/-- Identity and length of a collection. -/
structure Fingerprint where
  identity : Nat
  length : Nat
deriving DecidableEq, Repr

structure ResultStore (κ ν : Type) where
  maxResults : Value
  collections : Recent Fingerprint (Recent κ ν)
  hits : Nat := 0
  misses : Nat := 0

namespace ResultStore

variable {κ ν : Type} [BEq κ]

def defaultMaxResults : Int := 100
def defaultMaxCollections : Int := 64

def make? (maxResults maxCollections : Value) : Outcome (ResultStore κ ν) :=
  (Recent.make? maxCollections).map fun collections => { maxResults, collections }

/-- The result for a key on a collection. -/
def get (s : ResultStore κ ν) (f : Fingerprint) (k : κ) : Option ν × ResultStore κ ν :=
  match s.collections.get f with
  | (none, collections) => (none, { s with collections, misses := s.misses + 1 })
  | (some results, collections) =>
    let (found, results) := results.get k
    let s := { s with collections := collections.modify f fun _ => results }
    match found with
    | some v => (some v, { s with hits := s.hits + 1 })
    | none => (none, { s with misses := s.misses + 1 })

/-- Keeps a result; the bound on results is checked with the first result of a collection. -/
def put (s : ResultStore κ ν) (f : Fingerprint) (k : κ) (v : ν) : Outcome Unit × ResultStore κ ν :=
  match s.collections.get f with
  | (some _, collections) =>
    (.ok (), { s with collections := collections.modify f fun results => results.put k v })
  | (none, collections) =>
    match Recent.make? s.maxResults with
    | .ok results => (.ok (), { s with collections := collections.put f (results.put k v) })
    | .error e => (.error e, { s with collections })

/-- Drops all results and counts. -/
def clear (s : ResultStore κ ν) : ResultStore κ ν :=
  { s with collections := s.collections.clear, hits := 0, misses := 0 }

def entryCount (s : ResultStore κ ν) : Nat := s.collections.values.foldr (fun results n => results.size + n) 0

def evictions (s : ResultStore κ ν) : Nat := s.collections.values.foldr (fun results n => results.evictions + n) 0

/-- The counts of a store, as a mapping. -/
def statistics (s : ResultStore κ ν) : Value :=
  .object [(.text "collections", .int s.collections.size), (.text "entries", .int s.entryCount),
    (.text "hits", .int s.hits), (.text "misses", .int s.misses),
    (.text "evictions", .int s.evictions), (.text "hit_rate", .float (hitRate s.hits s.misses))]

end ResultStore
end Winnow
