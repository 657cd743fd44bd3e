import Winnow.Value.Basic
import Winnow.Number.Text
/-! # Text of values

`literal` writes a value as an expression that denotes it, the form of every value inside a message.
`display` writes it for reading: text without quotes, dates and moments in ISO form. -/

namespace Winnow

/-- Days, seconds and microseconds of a duration, the last two not negative. -/
def spanParts (us : Int) : Int × Int × Int := (us / wholeDay, us % wholeDay / second, us % second)

def spanLiteral (us : Int) : String :=
  let (days, seconds, micros) := spanParts us
  let parts := [("days", days), ("seconds", seconds), ("microseconds", micros)].filterMap fun (k, n) =>
    if n = 0 then none else some (k ++ "=" ++ toString n)
  "datetime.timedelta(" ++ (if parts.isEmpty then "0" else String.intercalate ", " parts) ++ ")"

/-- `[-]D day[s], H:MM:SS[.ffffff]`. -/
def spanDisplay (us : Int) : String :=
  let (days, seconds, micros) := spanParts us
  let s := seconds.toNat
  (if days = 0 then ""
    else toString days ++ (if days = 1 ∨ days = -1 then " day, " else " days, "))
    ++ toString (s / 3600) ++ ":" ++ padded 2 (s / 60 % 60) ++ ":" ++ padded 2 (s % 60)
    ++ (if micros = 0 then "" else "." ++ padded 6 micros.toNat)

def offsetLiteral (offset : Int) : String :=
  if offset = 0 then "datetime.timezone.utc" else "datetime.timezone(" ++ spanLiteral offset ++ ")"

def Date.literal (d : Date) : String := s!"datetime.date({d.year}, {d.month}, {d.day})"

def Moment.literal (m : Moment) : String :=
  let parts := [m.date.year, m.date.month, m.date.day, m.hour, m.minute].map toString
    ++ (if m.second ≠ 0 ∨ m.micro ≠ 0 then [toString m.second] else [])
    ++ (if m.micro ≠ 0 then [toString m.micro] else [])
    ++ (match m.offset with
      | some offset => ["tzinfo=" ++ offsetLiteral offset]
      | none => [])
  "datetime.datetime(" ++ String.intercalate ", " parts ++ ")"

/-- The module of a type. -/
def Callable.typeModule (typeName : String) : String :=
  match typeName with
  | "date" | "datetime" | "timedelta" | "timezone" => "datetime"
  | "Pattern" => "re"
  | "SimpleNamespace" => "types"
  | _ => "builtins"

def Callable.literal : Callable → String
  | .function name => "<function " ++ name ++ ">"
  | .type name =>
    let home := typeModule name
    "<class '" ++ (if home = "builtins" then "" else home ++ ".") ++ name ++ "'>"

namespace Value

/-- Literals of items between commas. -/
def commaSeparated (texts : List String) : String := String.intercalate ", " texts

def literal : Value → String
  | null => "None"
  | bool b => if b then "True" else "False"
  | int i => toString i
  | float f => floatText .literal f
  | text s => Text.quoted s
  | bytes b => Text.quotedBytes b
  | date d => d.literal
  | moment m => m.literal
  | span us => spanLiteral us
  | list items => "[" ++ commaSeparated (literals items) ++ "]"
  | tuple [x] => "(" ++ x.literal ++ ",)"
  | tuple items => "(" ++ commaSeparated (literals items) ++ ")"
  | set [] => "set()"
  | set items => "\x7b" ++ commaSeparated (literals items) ++ "\x7d"
  | object entries => "\x7b" ++ commaSeparated (entryLiterals entries) ++ "\x7d"
  | record fields => "namespace(" ++ commaSeparated (fieldLiterals fields) ++ ")"
  | pattern p => p.literal
  | callable c => c.literal
  | missing => "MISSING"
  | extension code data => s!"ExtType(code={code}, data=" ++ Text.quotedBytes data ++ ")"
  | other _ t => t
where
  literals : List Value → List String
  | [] => []
  | x :: xs => x.literal :: literals xs
  entryLiterals : List (Value × Value) → List String
  | [] => []
  | (k, v) :: es => (k.literal ++ ": " ++ v.literal) :: entryLiterals es
  fieldLiterals : List (String × Value) → List String
  | [] => []
  | (k, v) :: fs => (k ++ "=" ++ v.literal) :: fieldLiterals fs

def display : Value → String
  | text s => s
  | date d => d.iso
  | moment m => m.isoWith " "
  | span us => spanDisplay us
  | v => v.literal

end Value
end Winnow
