import Winnow.Operator.Operand
import Winnow.Functions
/-! # Operator tables

A table holds the operators an expression may use, in the order of their registration, under keys that
start with `$`. Its version grows with every change, so equal versions of one table mean equal
contents. -/

namespace Winnow

/-- What an operator does with a value. -/
inductive Rule
  | builtin (b : Builtin)
  | custom (c : Callable)
deriving DecidableEq, Repr

/-- How an operator checks its operand. -/
inductive OperandCheck
  | anything
  | builtin (b : Builtin)
  | custom (c : Callable)
deriving DecidableEq, Repr

structure OperatorInfo where
  name : String
  family : Family
  /-- logical operators have none -/
  rule : Option Rule
  check : OperandCheck := .anything
  label : String := ""
  description : String := ""
  /-- part of the shape of expressions rather than a test of values -/
  structural : Bool := false
deriving DecidableEq, Repr

namespace OperatorInfo

def ofBuiltin (b : Builtin) : OperatorInfo :=
  ⟨b.key, b.family, some (.builtin b), .builtin b, b.label, b.description, false⟩

def logical (name label description : String) : OperatorInfo :=
  ⟨name, .logical, none, .anything, label, description, true⟩

def literal (o : OperatorInfo) : String :=
  "OperatorInfo(name='" ++ o.name ++ "', family='" ++ o.family.name ++ "')"

/-- The operand in the form in which the operator uses it. -/
def checkOperand (o : OperatorInfo) (functions : Functions) (operand : Value) (path : String) :
    Outcome Operand :=
  match o.check with
  | .anything => .ok (.value operand)
  | .builtin b => b.check operand path
  | .custom c => (functions c (.check operand path)).map .value

end OperatorInfo

structure Table where
  operators : List OperatorInfo
  version : Nat
deriving DecidableEq, Repr

namespace Table

def empty : Table := ⟨[], 0⟩

/-- Built-in operators in the order of their families. -/
def builtinOperators : List OperatorInfo :=
  ([.eq, .ne, .gt, .gte, .lt, .lte, .isPresent, .isIn, .notIn, .contains, .size, .all, .startsWith,
    .endsWith, .regex, .search] : List Builtin).map .ofBuiltin ++
  [.logical "$and" "AND" "every sub-expression matches",
   .logical "$or" "OR" "at least one sub-expression matches",
   .logical "$not" "NOT" "sub-expression does not match"] ++
  ([.near, .geoBox, .geoPolygon, .recent, .upcoming, .dayOfWeek, .timeOfDay, .age, .isWeekday,
    .isWeekend, .isBefore, .isAfter] : List Builtin).map .ofBuiltin

/-- The table of the built-in operators, as registering them one by one leaves it. -/
def builtins : Table := ⟨builtinOperators, builtinOperators.length⟩

def find? (t : Table) (name : String) : Option OperatorInfo := t.operators.find? (·.name == name)

def contains (t : Table) (name : String) : Bool := (t.find? name).isSome

def size (t : Table) : Nat := t.operators.length

/-- Puts an operator in the place of the one with its name, or at the end. -/
def put (o : OperatorInfo) : List OperatorInfo → List OperatorInfo
  | [] => [o]
  | p :: ps => if p.name = o.name then o :: ps else p :: put o ps

def isKey (name : String) : Bool :=
  match name.toList with
  | '$' :: _ :: _ => true
  | _ => false

/-- Adds an operator. -/
def register (t : Table) (o : OperatorInfo) (overwrite : Bool) : Outcome Table :=
  if !isKey o.name then .error (.refused (.operatorKey o.name))
  else if t.contains o.name && !overwrite then .error (.refused (.operatorTaken o.name))
  else if o.rule.isNone && !o.structural then .error (.refused (.operatorWithoutFunction o.name))
  else .ok ⟨put o t.operators, t.version + 1⟩

/-- The label of a custom operator that has none: its key without the mark, in upper case. -/
def defaultLabel (name : String) : String :=
  Text.uppercase (String.ofList (name.toList.dropWhile (· == '$')))

/-- What a custom operator is made of. -/
structure Custom where
  name : String
  function : Callable
  family : Family := .comparison
  check : Option Callable := none
  label : String := ""
  description : String := ""

def Custom.info (c : Custom) : OperatorInfo :=
  ⟨c.name, c.family, some (.custom c.function), (c.check.map .custom).getD .anything,
    if c.label.isEmpty then defaultLabel c.name else c.label, c.description, false⟩

def registerCustom (t : Table) (c : Custom) (overwrite : Bool) : Outcome (OperatorInfo × Table) :=
  (t.register c.info overwrite).map fun t => (c.info, t)

def unknown (name : String) : String := "Unknown operator: " ++ name

/-- Removes an operator. -/
def unregister (t : Table) (name : String) : Outcome Table :=
  if t.contains name then .ok ⟨t.operators.filter (·.name != name), t.version + 1⟩
  else .error (.unknownOperator (unknown name))

def sortNames (names : List String) : List String := names.mergeSort fun a b => !decide (b < a)

/-- Names in ascending order, of one family or of all. -/
def names (t : Table) (family : Option Family) : List String :=
  sortNames ((t.operators.filter fun o => family.all (o.family == ·)).map (·.name))

def get (t : Table) (name : String) : Outcome OperatorInfo :=
  match t.find? name with
  | some o => .ok o
  | none =>
    .error (.unknownOperator
      (unknown name ++ ". Available: " ++ (textList (t.names none)).literal))

/-- The operator under a key of an expression. -/
def lookup (t : Table) (name path : String) (part : Value) : Outcome OperatorInfo :=
  match t.find? name with
  | some o => .ok o
  | none => .error (.expression (.unknownOperator name) part path)

/-- The label that reports show for a key. -/
def labelFor (t : Table) (name : String) : String :=
  match t.find? name with
  | some o => if o.label.isEmpty then name else o.label
  | none => name

/-- An empty table counts as none given: the default takes its place. -/
def orDefault (t default : Table) : Table := if t.operators.isEmpty then default else t

end Table
end Winnow
