import Winnow.Bound
import Winnow.Trace.Basic
/-! # Monitoring

A monitor keeps the latest durations of every operation and sums them up: their number, mean, extremes
and percentiles. -/

namespace Winnow

structure Monitor where
  enabled : Bool
  maxSamples : Nat
  /-- durations by operation, the oldest first -/
  samples : List (String × List Duration) := []
  /-- how many durations were ever recorded -/
  recorded : Nat := 0

/-- A summary of durations in milliseconds. -/
structure Metrics where
  count : Nat
  mean : Float
  least : Float
  most : Float
  p95 : Float
  p99 : Float
  total : Float

namespace Monitor

def defaultMaxSamples : Int := 1000

def make? (enabled : Bool) (maxSamples : Value) : Outcome Monitor :=
  (readBound .sampleLimit maxSamples).map fun maxSamples => { enabled, maxSamples }

/-- Adds a duration to those of an operation, the oldest giving way beyond the bound. -/
def append (maxSamples : Nat) (operation : String) (d : Duration) :
    List (String × List Duration) → List (String × List Duration)
  | [] => [(operation, [d])]
  | (name, ds) :: rest =>
    if name = operation then
      let ds := ds ++ [d]
      (name, ds.drop (ds.length - maxSamples)) :: rest
    else (name, ds) :: append maxSamples operation d rest

/-- Records a duration. -/
def track (m : Monitor) (operation : String) (d : Duration) : Monitor :=
  if m.enabled then
    { m with samples := append m.maxSamples operation d m.samples, recorded := m.recorded + 1 }
  else m

/-- The line that is logged with a duration. -/
def logText (operation : String) (d : Duration) : String := operation ++ ": " ++ d.text 3

/-- Names of the operations in ascending order. -/
def operations (m : Monitor) : List String := Table.sortNames (m.samples.map (·.1))

def milliseconds : Duration → Float
  | .measured ms => ms
  | .unmeasured => 0.0

/-- The value below which a share of the sorted values lies, between the two nearest ones. -/
def percentile (share : Float) (sorted : List Float) : Float :=
  let place := Float.ofNat (sorted.length - 1) * share
  let below := place.floor
  let i := ((Exact.ofFloat below).truncate?.getD 0).toNat
  let a := sorted.getD i 0.0
  let b := sorted.getD (i + 1) a
  let t := place - below
  if t < 0.5 then a + (b - a) * t else b - (b - a) * (1.0 - t)

/-- The summary of values, of which there has to be one. -/
def summarize (values : List Float) : Metrics :=
  let sorted := values.mergeSort fun a b => decide (a ≤ b)
  let total := values.foldl (· + ·) 0.0
  ⟨values.length, total / Float.ofNat values.length, sorted.headD 0.0, sorted.getLastD 0.0,
   percentile 0.95 sorted, percentile 0.99 sorted, total⟩

/-- The summary of an operation, if any duration is kept. -/
def metrics? (m : Monitor) (operation : String) : Option Metrics :=
  match m.samples.lookup operation with
  | some (d :: ds) => some (summarize ((d :: ds).map milliseconds))
  | _ => none

def all (m : Monitor) : List (String × Metrics) :=
  m.operations.filterMap fun name => (m.metrics? name).map fun x => (name, x)

/-- Forgets an operation, or all. -/
def clear (m : Monitor) (operation : Option String) : Monitor :=
  match operation with
  | none => { m with samples := [] }
  | some name => { m with samples := m.samples.filter fun e => e.1 != name }

def line (operation : String) (x : Metrics) : String :=
  let ms (f : Float) : String := (Duration.measured f).text 3
  operation ++ ": " ++ String.intercalate " "
    [s!"count={x.count}", "avg=" ++ ms x.mean, "p95=" ++ ms x.p95, "p99=" ++ ms x.p99, "max=" ++ ms x.most]

/-- A line for every operation. -/
def summary (m : Monitor) : List String :=
  match m.all with
  | [] => ["no metrics recorded"]
  | all => all.map fun (name, x) => line name x

end Monitor
end Winnow
