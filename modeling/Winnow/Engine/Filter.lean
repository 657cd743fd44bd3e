import Winnow.Engine.Debug
import Winnow.Chunks
/-! # Filtering

The ways to ask an engine for the records that match. Without an order the records are looked at only as
far as the answer needs. -/

namespace Winnow.Engine

/-- The result of a prepared call: in source order up to the limit, or sorted first. -/
def evaluate (o : Options) (node : Node) (records : List Value) : Request (List Value) :=
  if o.orderBy.isEmpty then scan o node o.limit records
  else do
    let found ← scan o node none records
    return arrange o.orderBy (o.limit.map Int.ofNat) o.caseSensitive found

/-- The result that is kept, or else the one of a request, which is then kept. -/
def cached (o : Options) (d : Data) (q : Query) (compute : Request (List Value)) :
    Request (List Value) := do
  match ← slot? o d q with
  | none => compute
  | some (fingerprint, key) =>
    match ← lookUp fingerprint key with
    | some result =>
      Request.note (.debug s!"Result cache hit ({result.length} records)")
      return result
    | none =>
      Request.note (.debug "Result cache miss")
      let result ← compute
      keep fingerprint key result
      return result

/-- The records that match. In debug mode the trace is logged. -/
def filter (d : Data) (q : Query) : Request (List Value) := do
  let (o, node, records) ← prepare d q
  if o.debug then
    let run ← runTraced d q o node records
    Request.note (.info ("\n" ++ (← run.text)))
    return run.result
  else measured o "filter" (cached o d q (evaluate o node records))

/-- The smaller of two numbers that may be missing. -/
def least (a b : Option Nat) : Option Nat := Option.merge min a b

/-- A positive number that a call asks for. -/
def readCount (name : String) (v : Value) : Outcome Nat := do
  match ← Options.checkCount name v with
  | some n => return n
  | none => .error (.options .notPositive (.text name) .null)

/-- The first records that match; with an order, the first ones in it. -/
def first (d : Data) (q : Query) (n : Value) : Request (List Value) := do
  let n ← readCount "n" n
  let (o, node, records) ← prepare d q
  measured o "filter_first" <|
    if o.orderBy.isEmpty then scan o node (least (some n) o.limit) records
    else do return (← evaluate o node records).take n

/-- Does some record match? -/
def anyMatch (d : Data) (q : Query) : Request Bool := do
  let (o, node, records) ← prepare d q
  measured o "filter_exists" do return !(← scan o node (some 1) records).isEmpty

/-- How many records match, up to the limit. -/
def count (d : Data) (q : Query) : Request Nat := do
  let (o, node, records) ← prepare d q
  measured o "filter_count" do return (← scan o node o.limit records).length

/-- The records that match, in chunks. -/
def filterChunks (d : Data) (q : Query) (size : Value) : Request (List (List Value)) := do
  let size ← readCount "chunk_size" size
  let result ← filter d q
  Chunks.split size result

end Winnow.Engine
