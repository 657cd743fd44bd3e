import Winnow.Text.Case
import Winnow.Failure
/-! # Loggers

Loggers form a tree by their dotted names. One whose own level is zero takes the level of the nearest
logger above it. Loggers below the package logger are used as they are, all others are set up on first
use. -/

namespace Winnow

structure Logger where
  level : Int := 0
  handlers : Nat := 0
deriving Repr

structure Loggers where
  loggers : List (String × Logger)
  /-- names of the loggers that have been set up or handed out -/
  configured : List String
deriving Repr

namespace Loggers

def rootName : String := "root"
def packageName : String := "recfilter"
def warning : Int := 30
def debug : Int := 10
def info : Int := 20

/-- Level numbers by name. -/
def levelNames : List (String × Int) :=
  [("CRITICAL", 50), ("FATAL", 50), ("ERROR", 40), ("WARN", 30), ("WARNING", 30), ("INFO", 20),
   ("DEBUG", 10), ("NOTSET", 0)]

/-- The number of a level that is given as a number or by name. -/
def readLevel (v : Value) : Outcome Int :=
  match v with
  | .int n => .ok n
  | .bool b => .ok (if b then 1 else 0)
  | .text s =>
    match levelNames.lookup (Text.uppercase s) with
    | some n => .ok n
    | none => .error (.refused (.logLevel v))
  | _ => .error (.fault .noAttribute)

/-- The root logger has an empty second name. -/
def proper (name : String) : String := if name.isEmpty then rootName else name

def find (l : Loggers) (name : String) : Logger := (l.loggers.lookup (proper name)).getD {}

def set (l : Loggers) (name : String) (logger : Logger) : Loggers :=
  { l with loggers := (proper name, logger) :: l.loggers.filter fun e => e.1 != proper name }

def configure (l : Loggers) (name : String) : Loggers :=
  if l.configured.contains name then l else { l with configured := name :: l.configured }

/-- The part of a name before its last dot. -/
def parentName? (name : String) : Option String :=
  match (name.toList.reverse.dropWhile (· != '.')) with
  | _ :: rest => some (String.ofList rest.reverse)
  | [] => none

/-- The names above a name, the nearest first, the root last. -/
def ancestors : Nat → String → List String
  | 0, _ => [rootName]
  | fuel + 1, name =>
    match parentName? name with
    | some parent => parent :: ancestors fuel parent
    | none => [rootName]

/-- The level that counts for a logger. -/
def effectiveLevel (l : Loggers) (name : String) : Int :=
  let name := proper name
  let names := if name = rootName then [name] else name :: ancestors name.length name
  ((names.map fun n => (l.loggers.lookup n).elim 0 (·.level)).find? (· != 0)).getD 0

/-- Sets up a logger with a level and a handler of its own; it exists even when the level is refused. -/
def setup (l : Loggers) (name : String) (level : Value) : Outcome Unit × Loggers :=
  match readLevel level with
  | .ok n => (.ok (), (l.set name ⟨n, 1⟩).configure name)
  | .error e => (.error e, l.set name (l.find name))

def isPackageChild (name : String) : Bool :=
  (packageName ++ ".").toList.isPrefixOf name.toList

/-- The loggers once a name has been asked for. -/
def get (l : Loggers) (name : String) : Loggers :=
  if l.configured.contains name then l
  else if isPackageChild name then
    let l := if l.configured.contains packageName then l else (l.set packageName ⟨warning, 1⟩).configure packageName
    (l.set name (l.find name)).configure name
  else (l.set name ⟨warning, 1⟩).configure name

def setLevel (l : Loggers) (level : Value) (name : String) : Outcome Unit × Loggers :=
  let l := l.get name
  match readLevel level with
  | .ok n => (.ok (), l.set name { l.find name with level := n })
  | .error e => (.error e, l)

/-- The root logger warns; the package logger is set up. -/
def initial : Loggers :=
  ⟨[(rootName, ⟨warning, 0⟩), (packageName, ⟨warning, 1⟩)], [packageName]⟩

end Loggers
end Winnow
