import Winnow.Pattern.Match
import Winnow.Pattern.Safety
import Winnow.Failure
/-! # Evaluations

An evaluation has an outcome, or asks for a compiled pattern and goes on with the answer. Who answers,
a compiler or a cache, is left to `run`. A pattern that is refused or malformed has no answer. -/

namespace Winnow

inductive Evaluation (α : Type)
  | done (outcome : Outcome α)
  | ask (source : String) (flags : Int) (next : Option Pattern.Program → Evaluation α)

namespace Evaluation

variable {α β : Type}

def bind : Evaluation α → (α → Evaluation β) → Evaluation β
  | done (.ok a), f => f a
  | done (.error e), _ => done (.error e)
  | ask source flags next, f => ask source flags fun p => (next p).bind f

instance : Monad Evaluation where
  pure a := done (.ok a)
  bind := bind

/-- Failures that count as a miss make the test fail; others stay. -/
def orMiss : Evaluation Bool → Evaluation Bool
  | done (.ok b) => done (.ok b)
  | done (.error e) => done (if e.isMiss then .ok false else .error e)
  | ask source flags next => ask source flags fun p => (next p).orMiss

/-- Does some item pass? Items after the first that passes are not looked at. -/
def anyItem (test : α → Evaluation Bool) : List α → Evaluation Bool
  | [] => pure false
  | x :: xs => do if ← test x then return true else anyItem test xs

def negation (e : Evaluation Bool) : Evaluation Bool := do return !(← e)

/-- The outcome when questions are answered by a function. -/
def run (answer : String → Int → Outcome (Option Pattern.Program)) : Evaluation α → Outcome α
  | done r => r
  | ask source flags next =>
    match answer source flags with
    | .ok p => (next p).run answer
    | .error e => .error e

/-- The outcome when questions are answered by something that changes with every answer. -/
def runState {σ : Type} (answer : σ → String → Int → Outcome (Option Pattern.Program) × σ) :
    σ → Evaluation α → Outcome α × σ
  | s, done r => (r, s)
  | s, ask source flags next =>
    match answer s source flags with
    | (.ok p, s) => runState answer s (next p)
    | (.error e, s) => (.error e, s)

end Evaluation

/-- Why a pattern source has no compiled form. -/
inductive PatternRefusal
  | hazard (h : Hazard)
  | invalid (source : String)
deriving Repr

/-- The compiled form of a source within a length limit; a count or flags that cannot be represented are
a fault. -/
def compileSource (limit : Int) (source : String) (flags : Int) :
    Outcome (Except PatternRefusal Pattern.Program) :=
  match hazard? source limit with
  | some h => .ok (.error (.hazard h))
  | none =>
    match Pattern.compile source flags with
    | .ok p => .ok (.ok p)
    | .error .malformed => .ok (.error (.invalid source))
    | .error .countTooLarge => .error (.fault .overflow)
    | .error .badFlags => .error (.fault .badValue)

/-- Answers by compiling. -/
def compileAnswer (limit : Int) (source : String) (flags : Int) : Outcome (Option Pattern.Program) :=
  (compileSource limit source flags).map Except.toOption

end Winnow
