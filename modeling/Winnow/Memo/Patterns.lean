import Winnow.Memo.Recent
import Winnow.Matching.Evaluation
/-! # Stores of compiled patterns

Patterns are kept under their source and flags. Only sources that compile are kept; why one does not
is found out anew each time. -/

namespace Winnow

structure PatternStore where
  programs : Recent (String × Int) Pattern.Program
  maxLength : Int

namespace PatternStore

def defaultSize : Int := 500

def make? (maxSize : Value) (maxLength : Int) : Outcome PatternStore :=
  (Recent.make? maxSize).map fun programs => ⟨programs, maxLength⟩

/-- The compiled form of a source, from the store or from the compiler. -/
def compile (s : PatternStore) (source : String) (flags : Int) :
    Outcome (Except PatternRefusal Pattern.Program) × PatternStore :=
  match s.programs.get (source, flags) with
  | (some p, programs) => (.ok (.ok p), { s with programs })
  | (none, programs) =>
    match compileSource s.maxLength source flags with
    | .ok (.ok p) => (.ok (.ok p), { s with programs := programs.put (source, flags) p })
    | r => (r, { s with programs })

/-- The compiled form that an evaluation asks for. -/
def answer (s : PatternStore) (source : String) (flags : Int) :
    Outcome (Option Pattern.Program) × PatternStore :=
  match s.compile source flags with
  | (r, s) => (r.map Except.toOption, s)

/-- Why a value has no compiled form. -/
inductive Refused
  | notText (typeName : String)
  | source (r : PatternRefusal)
deriving Repr

def Refused.message : Refused → String
  | notText t => "pattern must be a string, got " ++ t
  | source (.hazard h) => h.message
  | source (.invalid s) => "invalid regex " ++ Text.quoted s

/-- The compiled form of a value: a compiled pattern is its own. -/
def compileValue (s : PatternStore) (v : Value) (flags : Int) :
    Outcome (Except Refused Pattern.Program) × PatternStore :=
  match v with
  | .pattern p =>
    match Pattern.compile p.source p.flags with
    | .ok program => (.ok (.ok program), s)
    | .error _ => (.ok (.error (.source (.invalid p.source))), s)
  | .text source =>
    match s.compile source flags with
    | (r, s) => (r.map (Except.mapError Refused.source), s)
  | v => (.ok (.error (.notText v.typeName)), s)

/-- The compiled form of a value that has to have one: without it the value is a bad one, and the failure
says why. -/
def require (s : PatternStore) (v : Value) (flags : Int) : Outcome Pattern.Program × PatternStore :=
  match s.compileValue v flags with
  | (.ok (.ok p), s) => (.ok p, s)
  | (.ok (.error why), s) => (.error (.raised .badValue why.message), s)
  | (.error e, s) => (.error e, s)

def clear (s : PatternStore) : PatternStore := { s with programs := s.programs.clear }

end PatternStore
end Winnow
