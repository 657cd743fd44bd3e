import Winnow.Yaml.Place
/-! # Tokens of a document

Indentation, marks and brackets become tokens, and so do scalars and the names, tags and anchors that
stand before nodes. -/

namespace Winnow.Yaml

inductive Directive
  /-- the version a document is written for -/
  | version (major minor : Nat)
  /-- what a handle at the start of a tag stands for -/
  | handle (name meaning : String)
  /-- any other one, which is passed over -/
  | reserved
deriving DecidableEq, Repr

/-- A tag as it is written: a handle, which stands for the start of the tag, and the rest. -/
structure TagText where
  handle : Option String
  suffix : String
deriving DecidableEq, Repr

inductive Token
  | documentEnd
  | documentStart
  | directive (d : Directive)
  | finish
  | listStart
  | mappingStart
  | blockEnd
  | flowListStart
  | flowListEnd
  | flowMappingStart
  | flowMappingEnd
  | entry
  | flowEntry
  | key
  | value
  | reference (name : String)
  | anchor (name : String)
  | tag (t : TagText)
  | scalar (text : String) (isPlain : Bool)
deriving DecidableEq, Repr

end Winnow.Yaml
