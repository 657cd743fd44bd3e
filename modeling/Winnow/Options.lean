import Winnow.Order.SortKey
import Winnow.Expression.Validation
import Winnow.Operator.Meaning
/-! # Options

The options of a call. Values for options are layered: what a layer does not name is taken from the
layer below. Each option has a plain name, some a second one in mixed case. -/

namespace Winnow

inductive OptionName
  | caseSensitive | maxDepth | enableCache | orderBy | limit | customComparator | debug | verbose
  | showTimings | colorize | enablePerformanceMonitoring
deriving DecidableEq, Repr

namespace OptionName

def plain : OptionName → String
  | caseSensitive => "case_sensitive"
  | maxDepth => "max_depth"
  | enableCache => "enable_cache"
  | orderBy => "order_by"
  | limit => "limit"
  | customComparator => "custom_comparator"
  | debug => "debug"
  | verbose => "verbose"
  | showTimings => "show_timings"
  | colorize => "colorize"
  | enablePerformanceMonitoring => "enable_performance_monitoring"

def mixedCase : OptionName → String
  | caseSensitive => "caseSensitive"
  | maxDepth => "maxDepth"
  | enableCache => "enableCache"
  | orderBy => "orderBy"
  | customComparator => "customComparator"
  | showTimings => "showTimings"
  | enablePerformanceMonitoring => "enablePerformanceMonitoring"
  | name => name.plain

def all : List OptionName :=
  [caseSensitive, maxDepth, enableCache, orderBy, limit, customComparator, debug, verbose, showTimings,
   colorize, enablePerformanceMonitoring]

def ofPlain? (s : String) : Option OptionName := all.find? (·.plain == s)

def ofName? (s : String) : Option OptionName := all.find? fun n => n.plain == s || n.mixedCase == s

end OptionName

structure Options where
  caseSensitive : Bool := false
  maxDepth : Nat := 3
  enableCache : Bool := false
  orderBy : List SortKey := []
  limit : Option Nat := none
  customComparator : Option Callable := none
  debug : Bool := false
  verbose : Bool := false
  showTimings : Bool := false
  colorize : Bool := false
  enablePerformanceMonitoring : Bool := false
deriving DecidableEq, Repr

namespace Options

/-- Values for options, the last one for an option being the one that counts. -/
abbrev Layer := List (OptionName × Value)

def Layer.get? (layer : Layer) (name : OptionName) : Option Value :=
  (layer.reverse.find? fun e => e.1 = name).map (·.2)

def maxLimit : Int := 10000000

def reject {α : Type} (e : OptionError) (name : OptionName) (v : Value) : Outcome α :=
  .error (.options e (.text name.plain) v)

def readFlag (name : OptionName) : Value → Outcome Bool
  | .bool b => .ok b
  | v => reject (.notFlag v.typeName) name v

/-- A number of records that an option or argument of a name gives, if it gives one. -/
def checkCount (name : String) (v : Value) : Outcome (Option Nat) :=
  let reject (e : OptionError) : Outcome (Option Nat) := .error (.options e (.text name) v)
  match v with
  | .null => .ok none
  | .int n =>
    if n < 1 then reject (.limitTooSmall n)
    else if maxLimit < n then reject (.limitTooLarge n)
    else .ok (some n.toNat)
  | v => reject (.notInteger v.typeName)

def readLimit (v : Value) : Outcome (Option Nat) := checkCount OptionName.limit.plain v

def readComparator : Value → Outcome (Option Callable)
  | .null => .ok none
  | .callable c => .ok (some c)
  | v => reject (.notCallable v.typeName) .customComparator v

/-- An order that counts as false is none. -/
def readOrder (v : Value) : Outcome (List SortKey) := if v.truth then SortKey.readAll v else .ok []

/-- The value that a layer gives an option, or the one from below. -/
def layered {α : Type} (layer : Layer) (name : OptionName) (read : Value → Outcome α) (below : α) :
    Outcome α :=
  match layer.get? name with
  | some v => read v
  | none => .ok below

/-- The options with a layer over them. Flags are checked first. -/
def withLayer (base : Options) (layer : Layer) : Outcome Options := do
  let flag (name : OptionName) (below : Bool) : Outcome Bool :=
    layered layer name (readFlag name) below
  let caseSensitive ← flag .caseSensitive base.caseSensitive
  let enableCache ← flag .enableCache base.enableCache
  let debug ← flag .debug base.debug
  let verbose ← flag .verbose base.verbose
  let showTimings ← flag .showTimings base.showTimings
  let colorize ← flag .colorize base.colorize
  let monitoring ← flag .enablePerformanceMonitoring base.enablePerformanceMonitoring
  let maxDepth ← layered layer .maxDepth readMaxDepth base.maxDepth
  let limit ← layered layer .limit readLimit base.limit
  let comparator ← layered layer .customComparator readComparator base.customComparator
  let orderBy ← layered layer .orderBy readOrder base.orderBy
  return ⟨caseSensitive, maxDepth, enableCache, orderBy, limit, comparator, debug, verbose, showTimings,
    colorize, monitoring⟩

/-- The options that the entries of a mapping name. -/
def readLayer (entries : List (Value × Value)) : Outcome Layer :=
  entries.mapM fun (k, v) =>
    let unknown : Outcome (OptionName × Value) := .error (.options (.unknown k) k v)
    match k with
    | .text s =>
      match OptionName.ofName? s with
      | some name => .ok (name, v)
      | none => unknown
    | _ => unknown

/-- Options from a mapping, over the defaults. -/
def ofValue (v : Value) : Outcome Options :=
  match v with
  | .object entries => do ({} : Options).withLayer (← readLayer entries)
  | v => .error (.options (.notMapping v.typeName) .null v)

/-- Is the key the plain name of an option? -/
def isPlain : Value → Bool
  | .text s => (OptionName.ofPlain? s).isSome
  | _ => false

/-- Entries with the plain names first, so that names in mixed case count where both occur. -/
def plainFirst (entries : List (Value × Value)) : List (Value × Value) :=
  entries.filter (isPlain ·.1) ++ entries.filter (!isPlain ·.1)

/-- The options with a mapping's entries over them. -/
def overEntries (base : Options) (entries : List (Value × Value)) : Outcome Options := do
  base.withLayer (← readLayer (plainFirst entries))

/-- What a caller gives as options. -/
inductive Given
  | value (v : Value)
  | options (o : Options)

/-- The effective options of a call: options given as such replace the defaults, a mapping is laid over
them, and overrides over both. -/
def resolve (defaults : Options) (given : Given) (overrides : List (Value × Value)) :
    Outcome Options := do
  let resolved ←
    match given with
    | .options o => pure o
    | .value .null => pure defaults
    | .value (.object entries) => defaults.overEntries entries
    | .value v => .error (.options (.notOptions v.typeName) .null v)
  if overrides.isEmpty then return resolved else resolved.overEntries overrides

/-- The options with some replaced, by their plain names. -/
def replace (o : Options) (changes : List (Value × Value)) : Outcome Options :=
  if changes.all fun e => isPlain e.1 then o.overEntries changes else .error (.fault .typeMismatch)

/-- The options as a mapping; the comparator is left out. -/
def toValue (o : Options) : Value :=
  .ofPairs
    [("case_sensitive", .bool o.caseSensitive), ("max_depth", .int o.maxDepth),
     ("enable_cache", .bool o.enableCache), ("order_by", .list (o.orderBy.map (·.toValue))),
     ("limit", (o.limit.map fun (n : Nat) => Value.int n).getD .null), ("debug", .bool o.debug),
     ("verbose", .bool o.verbose), ("show_timings", .bool o.showTimings),
     ("colorize", .bool o.colorize),
     ("enable_performance_monitoring", .bool o.enablePerformanceMonitoring)]

end Options

/-- What tests of a call depend on. -/
def Options.terms (o : Options) (now : Moment) (functions : Functions) : Terms :=
  ⟨o.caseSensitive, o.customComparator, now, functions⟩

end Winnow
