import Winnow.Operator.Table
/-! # Registries

A registry holds operators under their keys and is changed in place, the entries first and the version after them.
What a call has written when it fails stays written. -/

namespace Winnow

structure Registry where
  /-- in the order of registration -/
  entries : List (String × OperatorInfo) := []
  version : Nat := 0
deriving DecidableEq, Repr

namespace Registry

/-- A call on a registry. -/
abbrev Action (α : Type) := ExceptT Failure (StateM Registry) α

/-- The table that a registry shows to expressions. -/
def table (r : Registry) : Table := ⟨r.entries.map (·.2), r.version⟩

def holds (r : Registry) (key : String) : Bool := (r.entries.lookup key).isSome

/-- Puts an operator under a key, in the place of the one there or at the end. -/
def assign (key : String) (o : OperatorInfo) : List (String × OperatorInfo) → List (String × OperatorInfo)
  | [] => [(key, o)]
  | e :: es => if e.1 = key then (key, o) :: es else e :: assign key o es

def failIf (refused : Bool) (f : Failure) : Action Unit := if refused then throw f else pure ()

def register (o : OperatorInfo) (overwrite : Bool) : Action Unit := do
  failIf (!Table.isKey o.name) (.refused (.operatorKey o.name))
  failIf ((← get).holds o.name && !overwrite) (.refused (.operatorTaken o.name))
  failIf (o.rule.isNone && !o.structural) (.refused (.operatorWithoutFunction o.name))
  modify fun r => { r with entries := assign o.name o r.entries }
  modify fun r => { r with version := r.version + 1 }

def registerCustom (c : Table.Custom) (overwrite : Bool) : Action OperatorInfo := do
  register c.info overwrite
  return c.info

def unregister (key : String) : Action Unit := do
  failIf (!(← get).holds key) (.unknownOperator (Table.unknown key))
  modify fun r => { r with entries := r.entries.filter (·.1 != key) }
  modify fun r => { r with version := r.version + 1 }

/-- A change that is asked of a registry. -/
inductive Change
  | register (o : OperatorInfo) (overwrite : Bool)
  | registerCustom (c : Table.Custom) (overwrite : Bool)
  | unregister (key : String)

def Change.action : Change → Action (Option OperatorInfo)
  | register o overwrite => (fun _ => none) <$> Registry.register o overwrite
  | registerCustom c overwrite => some <$> Registry.registerCustom c overwrite
  | unregister key => (fun _ => none) <$> Registry.unregister key

/-- What a change comes to: its answer, or why it fails, and the registry that it leaves. -/
def Change.run (c : Change) (r : Registry) : Outcome (Option OperatorInfo) × Registry :=
  c.action.run.run r

/-- A registry at every moment of a run, from the first on. -/
def moments (changes : List Change) (r : Registry) : List Registry :=
  changes.scanl (fun r c => (c.run r).2) r

/-- A new registry, in which the built-in operators are registered one by one if it is to have them. -/
def make (builtins : Bool) : Registry :=
  if builtins then
    Table.builtinOperators.foldl (fun r o => ((Change.register o false).run r).2) {}
  else {}

end Registry
end Winnow
