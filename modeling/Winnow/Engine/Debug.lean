import Winnow.Engine.Basic
import Winnow.Trace.Match
import Winnow.Trace.Text
import Winnow.Order.Sorting
/-! # Traced runs

A traced run tests all records and counts, for every part of the expression, how many reached it and
how many passed. Its result is that of an ordinary run. -/

namespace Winnow

structure TracedRun where
  result : List Value
  trace : Trace
  statistics : RunStatistics
  drawing : Drawing

namespace TracedRun

/-- The drawing of the trace with the statistics below it. -/
def text (run : TracedRun) : Outcome String := do
  let lines ← run.drawing.lines run.trace
  return String.intercalate "\n" (lines ++ "" :: run.statistics.lines run.drawing.colorize)

end TracedRun

namespace Engine

/-- Tests a record and counts what its parts came to. -/
def tracedTest (e : Engine) (o : Options) (s : PatternStore × Tracer) (record : Value) :
    Outcome Bool × (PatternStore × Tracer) :=
  Tracer.test (o.terms e.now e.environment.functions) e.checkingTable s record

/-- Scans all records with a trace. In a checked expression every address holds an object of its own. -/
def scanTraced (o : Options) (node : Node) (records : List Value) :
    Request (List Value × Trace) := fun e =>
  let tracer := Tracer.ofNode e.checkingTable o.showTimings node (.own node)
  let r := Scan.run (e.tracedTest o) (e.patterns, tracer) none records
  (r.outcome.map fun found => (found, r.state.2.trace),
   { e with patterns := r.state.1, recordsRead := e.recordsRead + r.read })

/-- Is a result kept? The look counts as a use of the store. -/
def probe (o : Options) (d : Data) (q : Query) : Request Bool := do
  match ← slot? o d q with
  | none => return false
  | some (fingerprint, key) => return (← lookUp fingerprint key).isSome

def drawing (o : Options) : Drawing := ⟨o.verbose, o.showTimings, o.colorize⟩

/-- Runs a prepared call with a trace. -/
def runTraced (d : Data) (q : Query) (o : Options) (node : Node) (records : List Value) :
    Request TracedRun := do
  let cacheHit ← probe o d q
  let (found, trace) ← measured o "filter_debug" (scanTraced o node records)
  let result := arrange o.orderBy (o.limit.map Int.ofNat) o.caseSensitive found
  return ⟨result, trace, ⟨found.length, records.length, .unmeasured, trace.evaluations, cacheHit⟩,
    drawing o⟩

/-- Filters with a trace. -/
def filterTraced (d : Data) (q : Query) : Request TracedRun := do
  let (o, node, records) ← prepare d q
  runTraced d q o node records

end Engine
end Winnow
