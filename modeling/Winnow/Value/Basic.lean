import Winnow.Pattern.Basic
import Winnow.Time.IsoText
import Winnow.Number.Exact
/-! # Values

Records, expressions and operands are values: scalars, dates, moments, lists, mappings with keys of
any kind, objects with named attributes, compiled patterns and named functions. -/

namespace Winnow

/-- A callable is known by name; equal names are the same callable. -/
inductive Callable
  | function (name : String)
  | type (name : String)
deriving DecidableEq, Repr

def Callable.name : Callable → String
  | .function name | .type name => name

inductive Value
  | null
  | bool (b : Bool)
  | int (i : Int)
  | float (f : Float)
  | text (s : String)
  | bytes (b : List UInt8)
  | date (d : Date)
  | moment (m : Moment)
  /-- a duration in microseconds -/
  | span (microseconds : Int)
  | list (items : List Value)
  | tuple (items : List Value)
  | set (items : List Value)
  /-- a mapping, in insertion order -/
  | object (entries : List (Value × Value))
  /-- an object with named attributes -/
  | record (fields : List (String × Value))
  | pattern (p : Pattern)
  | callable (c : Callable)
  /-- what a path that does not resolve yields -/
  | missing
  /-- binary data of a foreign type -/
  | extension (code : Int) (data : List UInt8)
  /-- anything else, known by its type's name and its text -/
  | other (typeName : String) (text : String)
deriving Repr, Inhabited

namespace Value

/-- The name of a value's type, as messages show it. -/
def typeName : Value → String
  | null => "NoneType"
  | bool _ => "bool"
  | int _ => "int"
  | float _ => "float"
  | text _ => "str"
  | bytes _ => "bytes"
  | date _ => "date"
  | moment _ => "datetime"
  | span _ => "timedelta"
  | list _ => "list"
  | tuple _ => "tuple"
  | set _ => "set"
  | object _ => "dict"
  | record _ => "SimpleNamespace"
  | pattern _ => "Pattern"
  | callable (.function _) => "function"
  | callable (.type _) => "type"
  | missing => "_Missing"
  | extension .. => "ExtType"
  | other name _ => name

/-- Does the value count as true? -/
def truth : Value → Bool
  | null | missing => false
  | bool b => b
  | int i => i != 0
  | float f => !(Exact.ofFloat f).isZero
  | text s => !s.isEmpty
  | bytes b => !b.isEmpty
  | span us => us != 0
  | list items | tuple items | set items => !items.isEmpty
  | object entries => !entries.isEmpty
  | _ => true

/-- Text, bytes, numbers and flags have no parts. -/
def isPrimitive : Value → Bool
  | text _ | bytes _ | int _ | float _ | bool _ => true
  | _ => false

/-- The items of a list or tuple. -/
def items? : Value → Option (List Value)
  | list items | tuple items => some items
  | _ => none

def isNull : Value → Bool
  | null => true
  | _ => false

def isMissing : Value → Bool
  | missing => true
  | _ => false

/-- The number a value denotes; flags are zero and one. -/
def number? : Value → Option Exact
  | bool b => some (.ofInt (if b then 1 else 0))
  | int i => some (.ofInt i)
  | float f => some (.ofFloat f)
  | _ => none

end Value
end Winnow
