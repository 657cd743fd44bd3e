import Winnow.Yaml.Content
import Winnow.Options
import Winnow.Monitor
/-! # Settings

Settings give the sizes of an engine's stores, its defaults for options and its log level. They are
taken as they are written; an engine checks them when it is built. -/

namespace Winnow

/-- A named setting with its value. -/
abbrev Setting := String × Value

/-- Settings by section and name. -/
structure Settings where
  cacheConfig : List Setting
  validationConfig : List Setting
  defaults : List Setting
  monitorMaxSamples : Value
  logLevel : Value

namespace Settings

def defaultCacheConfig : List Setting :=
  [("max_entries_per_collection", .int 100), ("max_collections", .int 64),
   ("regex_cache_size", .int 500), ("validation_cache_size", .int 256)]

def defaultValidationConfig : List Setting := [("max_regex_length", .int 1000)]

def defaultDefaults : List Setting :=
  [("case_sensitive", .bool false), ("max_depth", .int 3), ("enable_cache", .bool false),
   ("enable_performance_monitoring", .bool false)]

def standard : Settings :=
  ⟨defaultCacheConfig, defaultValidationConfig, defaultDefaults, .int Monitor.defaultMaxSamples,
   .text "WARNING"⟩

def mismatch {α : Type} : Outcome α := .error (.fault .typeMismatch)

/-- Sets a setting that a section has. -/
def set (section_ : List Setting) (key v : Value) : Outcome (List Setting) :=
  match key with
  | .text name =>
    if (section_.lookup name).isSome then
      .ok (section_.map fun s => if s.1 = name then (name, v) else s)
    else mismatch
  | _ => mismatch

/-- A section with the entries of a mapping; a value that counts as false changes nothing. -/
def readSection (section_ : List Setting) (v : Value) : Outcome (List Setting) :=
  if !v.truth then .ok section_
  else
    match v with
    | .object entries => entries.foldlM (fun s e => set s e.1 e.2) section_
    | _ => mismatch

/-- Settings from the entries of a mapping. Sections are read first, other keys are looked at last. -/
def ofEntries (entries : List (Value × Value)) : Outcome Settings := do
  let read (name : String) (section_ : List Setting) : Outcome (List Setting) :=
    match Value.get? entries name with
    | some v => readSection section_ v
    | none => .ok section_
  let known := ["cache_config", "validation_config", "defaults", "monitor_max_samples", "log_level"]
  let cacheConfig ← read "cache_config" defaultCacheConfig
  let validationConfig ← read "validation_config" defaultValidationConfig
  let defaults ← read "defaults" defaultDefaults
  if entries.any fun e => !known.any fun k => e.1.equal (.text k) then mismatch
  return ⟨cacheConfig, validationConfig, defaults,
    (Value.get? entries "monitor_max_samples").getD standard.monitorMaxSamples,
    (Value.get? entries "log_level").getD standard.logLevel⟩

/-- Settings from the text of a document, which is known by a name. An empty document changes nothing. A
setting that contains itself can be read but not kept. -/
def ofDocument (name text : String) : Outcome Settings := do
  let content ← Yaml.Content.ofText text
  if !content.value.truth then return standard
  match content.value with
  | .object entries =>
    let settings ← ofEntries entries
    if content.isEndless then Yaml.failure .endless else return settings
  | v =>
    .error (.wrongShape (name ++ ": expected a mapping at the top level, got " ++ v.typeName))

def section_ (settings : List Setting) : Value := .ofPairs settings

/-- The settings as a mapping. -/
def toValue (s : Settings) : Value :=
  .ofPairs
    [("cache_config", section_ s.cacheConfig), ("validation_config", section_ s.validationConfig),
     ("defaults", section_ s.defaults), ("monitor_max_samples", s.monitorMaxSamples),
     ("log_level", s.logLevel)]

/-- A setting of a section. -/
def get (settings : List Setting) (name : String) : Value := (settings.lookup name).getD .null

/-- The longest length that a value allows. -/
def length (v : Value) : Outcome Int :=
  match v.number? with
  | some x => .ok (x.floor?.getD noBound)
  | none => mismatch

/-- The options of calls that do not set them. -/
def defaultOptions (s : Settings) : Outcome Options :=
  ({} : Options).withLayer
    [(.caseSensitive, get s.defaults "case_sensitive"), (.maxDepth, get s.defaults "max_depth"),
     (.enableCache, get s.defaults "enable_cache"),
     (.enablePerformanceMonitoring, get s.defaults "enable_performance_monitoring")]

end Settings
end Winnow
