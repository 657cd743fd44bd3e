import Winnow.Trace.Basic
import Winnow.Transport.JsonWriter
/-! # Traces as text

A trace is drawn as a tree, one line a part, with its counts; statistics follow as a list. Colours are
terminal escapes. -/

namespace Winnow

mutual

/-- A value in which everything but JSON's own kinds is given as text. -/
def Value.shown : Value → Value
  | .list items => .list (shownItems items)
  | .tuple items => .list (shownItems items)
  | .object entries => .object (shownEntries entries)
  | .null => .null
  | .bool b => .bool b
  | .int i => .int i
  | .float f => .float f
  | .text s => .text s
  | v => .text v.display
termination_by structural v => v

def shownItems : List Value → List Value
  | [] => []
  | v :: vs => v.shown :: shownItems vs
termination_by structural vs => vs

def shownEntries : List (Value × Value) → List (Value × Value)
  | [] => []
  | (k, v) :: es => (k, v.shown) :: shownEntries es
termination_by structural es => es

end

mutual

/-- Compact text of an operand. Mappings with keys that JSON does not have are a fault. -/
def Value.brief : Value → Outcome String
  | .null => .ok "null"
  | .bool b => .ok (if b then "true" else "false")
  | .text s => .ok ("\"" ++ s ++ "\"")
  | .date d => .ok d.iso
  | .moment m => .ok m.iso
  | .pattern p => .ok ("/" ++ p.source ++ "/")
  | .list items => do return "[" ++ String.intercalate ", " (← briefItems items) ++ "]"
  | .tuple items => do return "[" ++ String.intercalate ", " (← briefItems items) ++ "]"
  | .object entries =>
    match Json.encode {} (Value.object entries).shown with
    | .ok s => .ok s
    | .error _ => .error (.fault .typeMismatch)
  | v => .ok v.display
termination_by structural v => v

def briefItems : List Value → Outcome (List String)
  | [] => .ok []
  | v :: vs => do
    let s ← v.brief
    return s :: (← briefItems vs)
termination_by structural vs => vs

end

namespace Colour

def reset : String := "\x1b[0m"
def bright : String := "\x1b[1m"
def dim : String := "\x1b[2m"
def yellow : String := "\x1b[33m"
def blue : String := "\x1b[34m"
def magenta : String := "\x1b[35m"
def cyan : String := "\x1b[36m"
def green : String := "\x1b[32m"
def gray : String := "\x1b[90m"

end Colour

/-- What a drawing shows. -/
structure Drawing where
  verbose : Bool := false
  timings : Bool := false
  colorize : Bool := false

namespace Drawing

variable (d : Drawing)

def paint (text colour : String) : String := if d.colorize then colour ++ text ++ Colour.reset else text

/-- A part of a total in percent, with one place. -/
def percentText (share : Float) : String := floatFixed 1 share ++ "%"

def counts (e : TraceEntry) : String :=
  if e.evaluated = 0 then d.paint " (not evaluated)" Colour.gray
  else
    let share := Float.ofNat e.matched / Float.ofNat e.evaluated * 100.0
    d.paint s!" ({e.matched}/{e.evaluated} matched, {percentText share})" Colour.gray

def label (e : TraceEntry) : Outcome String := do
  match e.kind with
  | .logical => return d.paint e.label (Colour.yellow ++ Colour.bright)
  | .operator =>
    return d.paint (e.field.getD "") Colour.cyan ++ " " ++ d.paint e.label Colour.magenta ++ " " ++
      d.paint (← e.operand.brief) Colour.green
  | .field =>
    let name := d.paint (e.field.getD "") Colour.cyan
    if e.operator = some Builtin.isIn.key then
      return name ++ " " ++ d.paint "OR" Colour.yellow ++ " " ++ (← e.operand.brief)
    else return name
  | .primitive =>
    if e.operator = some "function" then return d.paint (e.operand.display ++ "()") Colour.blue
    else return e.label ++ " " ++ (← e.operand.brief)

/-- The lines of one part, before those below it. -/
def entryLines (indent : String) (isLast : Bool) (e : TraceEntry) : Outcome (List String) := do
  let connector := if isLast then "└──" else "├──"
  let timing :=
    match d.timings, e.elapsed with
    | true, some t => " " ++ d.paint ("[" ++ t.text 2 ++ "]") Colour.dim
    | _, _ => ""
  let line := indent ++ connector ++ " " ++ (← d.label e) ++ d.counts e ++ timing
  let below := indent ++ (if isLast then "   " else "│  ")
  if d.verbose && !e.operand.isNull && e.kind != .primitive then
    return [line, below ++ "│ Value: " ++ (← e.operand.brief)]
  else return [line]

mutual

/-- The lines of a trace. -/
def traceLines (indent : String) (isLast : Bool) : Trace → Outcome (List String)
  | .node e ts => do
    let lines ← d.entryLines indent isLast e
    let below := indent ++ (if isLast then "   " else "│  ")
    return lines ++ (← childLines below ts)
termination_by structural t => t

def childLines (indent : String) : List Trace → Outcome (List String)
  | [] => .ok []
  | t :: ts => do
    let lines ← traceLines indent ts.isEmpty t
    return lines ++ (← childLines indent ts)
termination_by structural ts => ts

end

/-- The drawing of a trace under its title. -/
def lines (t : Trace) : Outcome (List String) := do
  return d.paint "Filter Debug Tree" (Colour.bright ++ Colour.cyan) :: (← d.traceLines "" true t)

end Drawing

/-- What a traced run came to. -/
structure RunStatistics where
  matched : Nat
  total : Nat
  duration : Duration
  evaluations : Nat
  cacheHit : Bool

namespace RunStatistics

/-- Matched records in percent of all. -/
def percentage (s : RunStatistics) : Float :=
  if s.total = 0 then 0.0 else Float.ofNat s.matched / Float.ofNat s.total * 100.0

def lines (s : RunStatistics) (colorize : Bool) : List String :=
  [({ colorize } : Drawing).paint "Statistics:" Colour.bright,
   s!"├── Matched: {s.matched} / {s.total} items ({Drawing.percentText s.percentage})",
   "├── Execution time: " ++ s.duration.text 2,
   s!"├── Conditions evaluated: {s.evaluations}",
   "└── Cache hit: " ++ (if s.cacheHit then "yes" else "no")]

end RunStatistics
end Winnow
