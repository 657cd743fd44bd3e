import Winnow.Engine.Data
import Winnow.Memo.Key
import Winnow.Memo.Patterns
import Winnow.Settings.Basic
import Winnow.Matching.Match
import Winnow.Scan
/-! # Engines

An engine holds a table of operators, defaults for options and three stores: of results, of compiled
patterns and of checked expressions. A request has an outcome and leaves an engine; what it did before
it failed stays done. -/

namespace Winnow

/-- A line that an engine logs. -/
inductive Notice
  | debug (text : String)
  | info (text : String)
deriving DecidableEq, Repr

structure Engine where
  table : Table
  /-- the table belongs to other engines too, and no other takes its place when it is empty -/
  sharesTable : Bool
  environment : Environment
  now : Moment
  defaults : Options
  results : ResultStore ResultKey (List Value)
  patterns : PatternStore
  expressions : Recent String Node
  monitor : Monitor
  /-- what was logged, the oldest first -/
  notices : List Notice := []
  /-- how many records were looked at -/
  recordsRead : Nat := 0

/-- Has an outcome and leaves an engine, whether it fails or not. -/
def Request (α : Type) := Engine → Outcome α × Engine

namespace Request

variable {α β : Type}

def done (r : Outcome α) : Request α := fun e => (r, e)

def bind (r : Request α) (f : α → Request β) : Request β := fun e =>
  match r e with
  | (.ok a, e) => f a e
  | (.error x, e) => (.error x, e)

instance : Monad Request where
  pure a := done (.ok a)
  bind := bind

instance : MonadLift (Except Failure) Request := ⟨done⟩

/-- The engine as it is. -/
def engine : Request Engine := fun e => (.ok e, e)

def update (f : Engine → Engine) : Request Unit := fun e => (.ok (), f e)

/-- Logs a line. -/
def note (n : Notice) : Request Unit := update fun e => { e with notices := e.notices ++ [n] }

/-- Changes the table of operators. -/
def onTable (f : Table → Outcome (α × Table)) : Request α := fun e =>
  match f e.table with
  | .ok (a, table) => (.ok a, { e with table })
  | .error x => (.error x, e)

end Request

namespace Engine

variable {α : Type}

/-- An engine with empty stores. Defaults are checked first, then the sizes of the stores; the number of
results of a collection is checked with the first one that is kept. -/
def make? (settings : Settings) (table : Table) (sharesTable : Bool) (environment : Environment)
    (now : Moment) : Outcome Engine := do
  let defaults ← settings.defaultOptions
  let size := Settings.get settings.cacheConfig
  let results ← ResultStore.make? (size "max_entries_per_collection") (size "max_collections")
  let maxLength ← Settings.length (Settings.get settings.validationConfig "max_regex_length")
  let patterns ← PatternStore.make? (size "regex_cache_size") maxLength
  let expressions ← Recent.make? (size "validation_cache_size")
  let monitor ← Monitor.make? true settings.monitorMaxSamples
  return { table, sharesTable, environment, now, defaults, results, patterns, expressions, monitor }

/-- The table that expressions are checked against and traces are made with. -/
def checkingTable (e : Engine) : Table :=
  if e.sharesTable then e.table else e.table.orDefault Table.builtins

/-- The effective options of a call. -/
def options (given : Options.Given) (overrides : List (Value × Value)) : Request Options := fun e =>
  (Options.resolve e.defaults given overrides, e)

/-- The key under which a checked expression is kept. -/
def expressionKey (e : Engine) (expression maxDepth : Value) : Outcome String :=
  (Canonical.bytes (.list [expression, maxDepth, .int e.table.version])).map e.environment.digest

/-- Is the failure one of the expression? -/
def isRejection : Failure → Bool
  | .expression .. => true
  | _ => false

def rejectionText (f : Failure) : String := "Expression rejected: " ++ f.message?.getD ""

/-- Checks an expression without looking into the store. -/
def check (e : Engine) (expression maxDepth : Value) : Outcome Node :=
  Winnow.validate e.checkingTable e.environment.functions maxDepth expression

/-- The tree of an expression, from the store or checked anew; a rejected one is logged. -/
def validate (expression maxDepth : Value) : Request Node := do
  let e ← Request.engine
  let depth := if maxDepth.isNull then .int e.defaults.maxDepth else maxDepth
  let key ← e.expressionKey expression depth
  let (kept, expressions) := e.expressions.get key
  Request.update fun e => { e with expressions }
  match kept with
  | some node => return node
  | none =>
    match e.check expression depth with
    | .ok node =>
      Request.update fun e => { e with expressions := e.expressions.put key node }
      return node
    | .error f =>
      if isRejection f then Request.note (.debug (rejectionText f))
      Request.done (.error f)

/-- The effective options of a query and the tree of its expression. -/
def resolve (q : Query) : Request (Options × Node) := do
  let o ← options q.given q.overrides
  return (o, ← validate q.expression (.int o.maxDepth))

/-- Options, tree and records of a call; the data is looked at last. -/
def prepare (d : Data) (q : Query) : Request (Options × Node × List Value) := do
  let (o, node) ← resolve q
  return (o, node, ← d.records)

/-- Tests a record; the test may use and change the pattern store. -/
def test (e : Engine) (o : Options) (node : Node) (s : PatternStore) (record : Value) :
    Outcome Bool × PatternStore :=
  (node.matches (o.terms e.now e.environment.functions) e.table record).runState PatternStore.answer s

/-- A scan of records for those that match. -/
def scanOf (e : Engine) (o : Options) (node : Node) (wanted : Option Nat) (records : List Value) :
    Scan PatternStore Value :=
  Scan.run (e.test o node) e.patterns wanted records

/-- The engine after a scan. -/
def afterScan (e : Engine) (r : Scan PatternStore Value) : Engine :=
  { e with patterns := r.state, recordsRead := e.recordsRead + r.read }

/-- The records that match, up to as many as are wanted. -/
def scan (o : Options) (node : Node) (wanted : Option Nat) (records : List Value) :
    Request (List Value) := fun e =>
  let r := e.scanOf o node wanted records
  (r.outcome, e.afterScan r)

/-- Where the result of a call is kept: only on data that has a fingerprint, and only if options ask for
it. -/
def slot? (o : Options) (d : Data) (q : Query) : Request (Option (Fingerprint × ResultKey)) := do
  match if o.enableCache then d.fingerprint? else none with
  | none => return none
  | some fingerprint =>
    let e ← Request.engine
    return some (fingerprint, ← ResultKey.make e.environment q.expression o e.table.version)

/-- The result that is kept for a key, if there is one. -/
def lookUp (fingerprint : Fingerprint) (key : ResultKey) : Request (Option (List Value)) := fun e =>
  let (kept, results) := e.results.get fingerprint key
  (.ok kept, { e with results })

/-- Keeps a result. -/
def keep (fingerprint : Fingerprint) (key : ResultKey) (result : List Value) : Request Unit := fun e =>
  let (r, results) := e.results.put fingerprint key result
  (r, { e with results })

/-- Records that an operation ran. -/
def track (e : Engine) (operation : String) : Engine :=
  { e with
    monitor := e.monitor.track operation .unmeasured
    notices := e.notices ++ [.debug (Monitor.logText operation .unmeasured)] }

/-- Runs an operation under the monitor, if options ask for it; a failing one is recorded too. -/
def measured (o : Options) (operation : String) (r : Request α) : Request α := fun e =>
  match r e with
  | (x, e) => (x, if o.enablePerformanceMonitoring then e.track operation else e)

/-- Drops all that is kept. Counts stay, except those of results. -/
def clear : Request Unit := do
  Request.update fun e =>
    { e with results := e.results.clear, patterns := e.patterns.clear, expressions := e.expressions.clear }
  Request.note (.info "Filter caches cleared")

/-- The counts of the stores. -/
def statistics (e : Engine) : List (String × Value) :=
  [("results", e.results.statistics), ("regex", e.patterns.programs.statistics),
   ("validation", e.expressions.statistics)]

def text (e : Engine) : String :=
  s!"FilterEngine(operators={e.table.size}, cached_results={e.results.entryCount})"

end Engine
end Winnow
