import Winnow.Value.Order
import Winnow.Value.Text
import Winnow.Number.Read
import Winnow.Failure
/-! # Writing JSON

The text transport of expressions. Dates, moments and patterns become objects with reserved keys, sets
and tuples become arrays. A layout chooses escapes, separators, indentation and the order of keys. -/

namespace Winnow.Json

structure Layout where
  /-- escape all characters but the printable ASCII ones -/
  escapeAll : Bool := true
  /-- write floats that are no numbers -/
  admitNonNumbers : Bool := true
  sortKeys : Bool := false
  /-- leave out entries whose key has no text form -/
  skipKeys : Bool := false
  /-- what a level is indented by, when values are spread over lines -/
  indent : Option String := none
  itemSeparator : String := ", "
  keySeparator : String := ": "

/-- Dates and moments travel under this key. -/
def dateKey : String := "$date"
/-- Set beside `dateKey` for a date without a time of day. -/
def dateOnlyKey : String := "$dateOnly"
def patternKey : String := "$pattern"
def flagsKey : String := "$flags"

/-- An escape by code; characters beyond the sixteen bits take two. -/
def codeEscape (c : Char) : List Char :=
  let unit (n : Nat) : List Char := '\\' :: 'u' :: Text.hexPadded 4 n
  if c.toNat < 0x10000 then unit c.toNat
  else unit (0xd800 + (c.toNat - 0x10000) / 0x400) ++ unit (0xdc00 + (c.toNat - 0x10000) % 0x400)

def escapeChar (escapeAll : Bool) (c : Char) : List Char :=
  match c with
  | '"' => ['\\', '"']
  | '\\' => ['\\', '\\']
  | '\n' => ['\\', 'n']
  | '\r' => ['\\', 'r']
  | '\t' => ['\\', 't']
  | '\x0c' => ['\\', 'f']
  | '\x08' => ['\\', 'b']
  | c => if c.toNat < 0x20 ∨ (escapeAll ∧ 0x7f ≤ c.toNat) then codeEscape c else [c]

def quoted (escapeAll : Bool) (s : String) : String :=
  String.ofList ('"' :: s.toList.flatMap (escapeChar escapeAll) ++ ['"'])

def unencodable {α : Type} : Outcome α := .error (.transport .encoding)

/-- Numbers longer than `maxDigits` are not written. -/
def intText (i : Int) : Outcome String :=
  if i.natAbs < Nat.pow 10 maxDigits then .ok (toString i) else unencodable

def numberText (layout : Layout) (f : Float) : Outcome String :=
  if layout.admitNonNumbers || (Exact.ofFloat f).isFinite then .ok (floatText .transport f)
  else unencodable

/-- The text form of a key; `none` leaves the entry out. -/
def keyText (layout : Layout) : Value → Outcome (Option String)
  | .text s => .ok (some s)
  | .float f => (numberText layout f).map some
  | .bool b => .ok (some (if b then "true" else "false"))
  | .null => .ok (some "null")
  | .int i => (intText i).map some
  | _ => if layout.skipKeys then .ok none else unencodable

/-- Entries in the order of their keys; keys that are not ordered are refused. -/
def sortEntries {α : Type} (entries : List (Value × α)) : Outcome (List (Value × α)) :=
  let comparable := entries.all fun a => entries.all fun b =>
    a.1.equal b.1 || (Value.relate? .lt a.1 b.1).isSome
  if comparable then
    .ok (entries.mergeSort fun a b => (Value.relate? .lt b.1 a.1) != some true)
  else unencodable

/-- A line break followed by the indentation of a level. -/
def lineBreak (layout : Layout) (level : Nat) : String :=
  match layout.indent with
  | some unit => "\n" ++ String.join (List.replicate level unit)
  | none => ""

def bracketed (layout : Layout) (level : Nat) (opening closing : String) (texts : List String) :
    String :=
  opening ++ lineBreak layout (level + 1)
    ++ String.intercalate (layout.itemSeparator ++ lineBreak layout (level + 1)) texts
    ++ lineBreak layout level ++ closing

/-- Entries under their keys' texts; each entry is written once its key is. -/
def labelled (layout : Layout) : List (Value × Outcome String) → Outcome (List String)
  | [] => .ok []
  | (k, text) :: es => do
    match ← keyText layout k with
    | none => labelled layout es
    | some key =>
      let value ← text
      let rest ← labelled layout es
      return (quoted layout.escapeAll key ++ layout.keySeparator ++ value) :: rest

def entriesText (layout : Layout) (level : Nat) (entries : List (Value × Outcome String)) :
    Outcome String := do
  if entries.isEmpty then return "\x7b\x7d"
  let entries ← if layout.sortKeys then sortEntries entries else pure entries
  return bracketed layout level "\x7b" "\x7d" (← labelled layout entries)

def itemsText (layout : Layout) (level : Nat) (items : List (Outcome String)) : Outcome String := do
  if items.isEmpty then return "[]"
  return bracketed layout level "[" "]" (← items.mapM id)

def objectText (layout : Layout) (level : Nat) (entries : List (String × String)) : Outcome String :=
  entriesText layout level (entries.map fun (k, text) => (.text k, .ok text))

/-- Text of a value at a level of indentation. -/
def write (layout : Layout) (level : Nat) : Value → Outcome String
  | .null => .ok "null"
  | .bool b => .ok (if b then "true" else "false")
  | .int i => intText i
  | .float f => numberText layout f
  | .text s => .ok (quoted layout.escapeAll s)
  | .list items | .tuple items | .set items =>
    itemsText layout level (writeItems layout (level + 1) items)
  | .object entries => entriesText layout level (writeEntries layout (level + 1) entries)
  | .moment m => objectText layout level [(dateKey, quoted layout.escapeAll m.iso)]
  | .date d =>
    objectText layout level [(dateKey, quoted layout.escapeAll d.iso), (dateOnlyKey, "true")]
  | .pattern p =>
    objectText layout level
      [(patternKey, quoted layout.escapeAll p.source), (flagsKey, toString p.flags)]
  | .extension code data =>
    itemsText layout level
      [intText code, .error (.transport (.unsupported (Value.bytes data).typeName))]
  | .callable _ => .error (.transport .callable)
  | .bytes b => .error (.transport (.unsupported (Value.bytes b).typeName))
  | .span us => .error (.transport (.unsupported (Value.span us).typeName))
  | .record fields => .error (.transport (.unsupported (Value.record fields).typeName))
  | .missing => .error (.transport (.unsupported Value.missing.typeName))
  | .other name _ => .error (.transport (.unsupported name))
where
  writeItems (layout : Layout) (level : Nat) : List Value → List (Outcome String)
  | [] => []
  | x :: xs => write layout level x :: writeItems layout level xs
  writeEntries (layout : Layout) (level : Nat) : List (Value × Value) → List (Value × Outcome String)
  | [] => []
  | (k, v) :: es => (k, write layout level v) :: writeEntries layout level es

/-- The text of a value. -/
def encode (layout : Layout) (v : Value) : Outcome String := write layout 0 v

/-- Is it a text? -/
def text? : Value → Option String
  | .text s => some s
  | _ => none

/-- The longest indentation that can be held, and the longest that can be told. -/
def maxIndent : Int := 100000000
def maxCount : Int := 9223372036854775807

/-- What a level is indented by: a text, or a number of blanks. -/
def readIndent : Value → Outcome (Option String)
  | .null => .ok none
  | .text s => .ok (some s)
  | .int i =>
    if i ≤ maxIndent then .ok (some (String.ofList (List.replicate i.toNat ' ')))
    else .error (.fault (if i ≤ maxCount then .exhausted else .overflow))
  | .bool b => .ok (some (if b then " " else ""))
  | _ => unencodable

/-- Item and key separators. -/
def readSeparators : Value → Outcome (Value × Value)
  | .list [a, b] | .tuple [a, b] => .ok (a, b)
  | .object [(a, _), (b, _)] => .ok (a, b)
  | .text s =>
    match s.toList with
    | [a, b] => .ok (.text a.toString, .text b.toString)
    | _ => unencodable
  | _ => unencodable

/-- The layout that named settings ask for; `plainText` says that the value is a text, which needs neither
separators nor indentation. -/
def Layout.ofSettings (plainText : Bool) (settings : List (Value × Value)) : Outcome Layout := do
  let known := ["skipkeys", "ensure_ascii", "check_circular", "allow_nan", "cls", "indent",
    "separators", "sort_keys"]
  if settings.any fun (k, _) => (text? k).all fun s => !known.contains s then unencodable
  let flag (name : String) (default : Bool) : Bool :=
    ((Value.get? settings name).map Value.truth).getD default
  if !((Value.get? settings "cls").getD .null).isNull then unencodable
  let indent ← if plainText then pure none else readIndent ((Value.get? settings "indent").getD .null)
  let (itemSeparator, keySeparator) ←
    match (Value.get? settings "separators").getD .null with
    | .null => pure (if indent.isSome then "," else ", ", ": ")
    | v =>
      match ← readSeparators v with
      | (.text a, .text b) => pure (a, b)
      | _ => if plainText then pure ("", "") else unencodable
  return ⟨flag "ensure_ascii" true, flag "allow_nan" true, flag "sort_keys" false,
    flag "skipkeys" false, indent, itemSeparator, keySeparator⟩

end Winnow.Json
