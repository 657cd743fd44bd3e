import Winnow.Memo.Results
import Winnow.Options
/-! # Data of calls

A call reads its records from a collection or from a stream. A collection has an identity, by which its
results can be kept; the records of a stream come one by one, on demand or as they arrive. -/

namespace Winnow

/-- How a stream hands out its records. -/
inductive StreamKind
  | onDemand | arriving
deriving DecidableEq, Repr

/-- The name of a stream's type, as messages show it. -/
def StreamKind.typeName : StreamKind → String
  | onDemand => "generator"
  | arriving => "async_generator"

/-- What a call reads records from. -/
inductive Data
  | value (identity : Nat) (v : Value)
  | stream (kind : StreamKind) (records : List Value)

namespace Data

def typeName : Data → String
  | value _ v => v.typeName
  | stream kind _ => kind.typeName

/-- The records of data that can be read on demand; texts and mappings are no collections. -/
def records? : Data → Option (List Value)
  | value _ (.list items) | value _ (.tuple items) | value _ (.set items) => some items
  | stream .onDemand records => some records
  | _ => none

/-- The records of data that can be read as they arrive. -/
def arriving? : Data → Option (List Value)
  | stream .arriving records => some records
  | _ => none

def records (d : Data) : Outcome (List Value) :=
  match d.records? with
  | some records => .ok records
  | none => .error (.wrongShape ("data must be an iterable of records, got " ++ d.typeName))

def arriving (d : Data) : Outcome (List Value) :=
  match d.arriving? with
  | some records => .ok records
  | none => .error (.wrongShape ("data must be an async iterable of records, got " ++ d.typeName))

/-- How results on the data are kept; only those on lists and tuples are. -/
def fingerprint? : Data → Option Fingerprint
  | value identity (.list items) | value identity (.tuple items) => some ⟨identity, items.length⟩
  | _ => none

end Data

/-- What a call asks for. -/
structure Query where
  expression : Value
  given : Options.Given := .value .null
  overrides : List (Value × Value) := []

end Winnow
