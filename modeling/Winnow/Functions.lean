import Winnow.Value.Order
import Winnow.Value.Text
import Winnow.Text.Case
import Winnow.Number.Read
import Winnow.Failure
/-! # Named functions

Expressions, options and operator tables refer to functions by name; an environment says what they do.
`Functions.standard` holds a small stock of predicates, comparators, operators and operand checks. -/

namespace Winnow

/-- What a function is called for. -/
inductive Call
  /-- does a record match? -/
  | predicate (record : Value)
  /-- does a value equal an expected one? -/
  | comparison (actual expected : Value)
  /-- does a value pass a test with an operand? -/
  | operation (actual operand : Value) (caseSensitive : Bool)
  /-- is the operand at a path acceptable, and what is it turned into? -/
  | check (operand : Value) (path : String)

abbrev Functions := Callable → Call → Outcome Value

/-- Text as it is compared: in lower case unless case matters. -/
def foldCase (caseSensitive : Bool) (s : String) : String :=
  if caseSensitive then s else Text.lowercase s

namespace Functions

def mismatch {α : Type} : Outcome α := .error (.fault .typeMismatch)

/-- A result that is a flag. -/
def flag (r : Outcome Bool) : Outcome Value := r.map .bool

def relate (r : Relation) (a b : Value) : Outcome Bool :=
  match a.relate? r b with
  | some b => .ok b
  | none => mismatch

/-- The arguments of a function of two. -/
def pair? : Call → Option (Value × Value)
  | .comparison a e => some (a, e)
  | .check o path => some (o, .text path)
  | _ => none

def record? : Call → Option Value
  | .predicate r => some r
  | _ => none

/-- Applies a function of one argument. -/
def withRecord (call : Call) (f : Value → Outcome Value) : Outcome Value :=
  match call with
  | .predicate r => f r
  | _ => mismatch

def withPair (call : Call) (f : Value → Value → Outcome Value) : Outcome Value :=
  match pair? call with
  | some (a, b) => f a b
  | none => mismatch

def withOperand (call : Call) (f : Value → Value → Bool → Outcome Value) : Outcome Value :=
  match call with
  | .operation a o caseSensitive => f a o caseSensitive
  | _ => mismatch

/-- The entry of a mapping, or null; only mappings can be asked. -/
def entry (r : Value) (key : String) : Outcome Value :=
  match r with
  | .object entries => .ok ((Value.get? entries key).getD .null)
  | _ => .error (.fault .noAttribute)

/-- Is the record's age at least eighteen? -/
def adult (r : Value) : Outcome Value :=
  match r with
  | .object entries =>
    match Value.get? entries "age" with
    | some age => flag (relate .ge age (.int 18))
    | none => .error (.fault .noKey)
  | _ => mismatch

def over26 (r : Value) : Outcome Value := do
  let a ← entry r "a"
  flag (relate .gt (if a.truth then a else .int 0) (.int 26))

/-- The float of a number. -/
def toFloat (v : Value) : Outcome Float :=
  match v with
  | .float f => .ok f
  | .bool b => .ok (if b then 1.0 else 0.0)
  | .int i =>
    match floatOfInt? i with
    | some f => .ok f
    | none => .error (.fault .overflow)
  | _ => mismatch

/-- The whole number of a flag or whole number. -/
def toInt? : Value → Option Int
  | .int i => some i
  | .bool b => some (if b then 1 else 0)
  | _ => none

/-- Do two numbers differ by one at most? -/
def close (a e : Value) : Outcome Bool :=
  match toInt? a, toInt? e with
  | some x, some y => .ok ((x - y).natAbs ≤ 1)
  | _, _ => do
    let x ← toFloat a
    let y ← toFloat e
    return decide ((x - y).abs ≤ 1.0)

/-- Is the number even? Texts are no numbers, but none of them passes. -/
def even (a : Value) : Outcome Bool :=
  match a.number? with
  | some x =>
    match x.whole? with
    | some n => .ok (n % 2 == 0)
    | none => .ok false
  | none => mismatch

/-- The item of an operand at a place. -/
def itemAt (o : Value) (place : Nat) : Outcome Value :=
  let nth (items : List Value) : Outcome Value :=
    match items[place]? with
    | some v => .ok v
    | none => .error (.fault .noItem)
  match o with
  | .list items | .tuple items => nth items
  | .text s => nth (s.toList.map fun c => .text c.toString)
  | .bytes b => nth (b.map fun x => .int x.toNat)
  | .object entries =>
    match Value.find? entries (.int place) with
    | some v => .ok v
    | none => .error (.fault .noKey)
  | _ => mismatch

/-- Is the value between the first two items of the operand? The second is not looked at when the first
one fails. -/
def between (a o : Value) : Outcome Bool := do
  if ← relate .le (← itemAt o 0) a then relate .le a (← itemAt o 1) else return false

/-- A value as it is compared when case does not matter; only texts and bytes have a case. -/
def folded (caseSensitive : Bool) (v : Value) : Outcome Value :=
  if caseSensitive then .ok v
  else
    match v with
    | .text s => .ok (.text (Text.lowercase s))
    | .bytes b => .ok (.bytes (b.map fun x => if 65 ≤ x ∧ x ≤ 90 then x + 32 else x))
    | _ => .error (.fault .noAttribute)

def positive (o : Value) : Outcome Value :=
  match o with
  | .int i => if 0 < i then .ok (.int (i * 10)) else .error (.rejected "operand must be positive")
  | _ => .error (.rejected "operand must be positive")

/-- The whole number that a text or bytes hold in a base. -/
def wholeNumber (a base : Value) : Outcome Value :=
  let read (base : Nat) (cs : List Char) : Outcome Value :=
    match readWhole? base cs with
    | some n => .ok (.int n)
    | none => .error (.fault .badValue)
  match toInt? base with
  | none => mismatch
  | some b =>
    if b < 0 ∨ b = 1 ∨ 36 < b then .error (.fault .badValue)
    else
      match a with
      | .text s => read b.toNat s.toList
      | .bytes xs => read b.toNat (xs.map fun x => if x < 127 then Char.ofNat x.toNat else '?')
      | _ => mismatch

/-- The stock of functions. -/
def standard : Functions := fun callable call =>
  match callable with
  | .type "int" => withPair call wholeNumber
  | .type _ => mismatch
  | .function name =>
    match name with
    | "always" => .ok (.bool true)
    | "never" => .ok (.bool false)
    | "raise_value" => .error (.raised .badValue "boom")
    | "raise_type" => .error (.raised .typeMismatch "boom")
    | "raise_zero" => .error (.raised .divisionByZero "boom")
    | "adult" => withRecord call adult
    | "over_26" => withRecord call over26
    | "get_tags" => withRecord call fun r => entry r "tags"
    | "itself" => withRecord call .ok
    | "str_eq" => withPair call fun a e => .ok (.bool (a.display == e.display))
    | "close" => withPair call fun a e => flag (close a e)
    | "actual" => withPair call fun a _ => .ok a
    | "check_pos" => withPair call fun o _ => positive o
    | "even" => withOperand call fun a _ _ => flag (even a)
    | "between" => withOperand call fun a o _ => flag (between a o)
    | "is_missing" => withOperand call fun a o _ => .ok (.bool (o.equal (.bool a.isMissing)))
    | "folded" => withOperand call fun a o caseSensitive => do
      let x ← folded caseSensitive a
      let y ← folded caseSensitive o
      return .bool (x.equal y)
    | "eq_operand" => withOperand call fun a o _ => .ok (.bool (a.equal o))
    | "value" => withOperand call fun a _ _ => .ok a
    | _ => mismatch

end Functions
end Winnow
