import Winnow.Expression.Tree
import Winnow.Operator.Table
/-! # Validation

`validate` checks a written expression against a table of operators and gives its tree. The root
object has depth one; every operand of `$and`, `$or` and `$not` and every nested object is one deeper,
maps of operators are not. -/

namespace Winnow

namespace Path

/-- The path of a part below a path; places in lists are written in brackets. -/
def join (path part : String) : String :=
  if path.isEmpty then part
  else if part.toList.head? = some '[' then path ++ part
  else path ++ "." ++ part

end Path

/-- Does the key name an operator? -/
def isOperatorKey : Value → Bool
  | .text k => k.toList.head? == some '$'
  | _ => false

/-- What expressions are checked against. -/
structure Grammar where
  table : Table
  functions : Functions
  maxDepth : Nat

namespace Grammar

variable (g : Grammar)

def reject {α : Type} (e : ExpressionError) (part : Value) (path : String) : Outcome α :=
  .error (.expression e part path)

/-- A node of the items of an object. -/
def conjunction : List Node → Node
  | [n] => n
  | ns => .all ns true

/-- The junction of a key. -/
def junction (key : String) (items : List Node) : Node :=
  if key = andKey then .all items false else .any items

def itemPath (path : String) (place : Nat) : String := Path.join path s!"[{place}]"

/-- An operator may be used inside a field condition. -/
def checkTest (map : Value) (key : String) (operand : Value) (path : String) : Outcome Test := do
  let info ← g.table.lookup key path map
  if info.structural then reject (.structuralInField key) map path
  return .apply key (← info.checkOperand g.functions operand path) operand

mutual

/-- The tests of a map of operators. -/
def checkTests (map : Value) (path : String) : List (Value × Value) → Outcome (List Test)
  | [] => .ok []
  | (k, operand) :: rest => do
    let key := k.display
    let path' := Path.join path key
    let test ←
      if key = notKey then do
        let condition ← checkNegated operand path'
        pure (Test.negate condition operand)
      else checkTest g map key operand path'
    return test :: (← checkTests map path rest)
termination_by structural es => es

/-- The operand of a negation inside a field condition: a map of operators or a literal. -/
def checkNegated (operand : Value) (path : String) : Outcome Condition :=
  match operand with
  | .list _ | .tuple _ => reject .fieldNotArray operand path
  | .object entries =>
    if entries.isEmpty || !entries.all fun e => isOperatorKey e.1 then
      reject .fieldNotShape operand path
    else (checkTests operand path entries).map .tests
  | v => .ok (.literal (.parse v))
termination_by structural operand

end

/-- The node of an object whose entries have the given nodes; too deep an object is rejected before its
entries are looked at. -/
def object (depth : Nat) (path : String) (part : Value) (items : Unit → Outcome (List Node)) :
    Outcome Node :=
  if g.maxDepth < depth then reject (.tooDeep depth g.maxDepth) part path
  else (items ()).map conjunction

mutual

/-- The nodes of an object's entries. -/
def checkEntries (depth : Nat) (path : String) (expression : Value) :
    List (Value × Value) → Outcome (List Node)
  | [] => .ok []
  | (k, v) :: rest => do
    let node ←
      match k with
      | .text key =>
        let path' := Path.join path key
        if key = andKey ∨ key = orKey then checkJunction key depth path' v
        else if key = notKey then checkNot depth path' v
        else if isOperatorKey k then do
          let info ← g.table.lookup key path expression
          reject (.operatorOutsideField info.name) expression path
        else (checkCondition depth path' v).map (.field key)
      | k => reject (.fieldNotText k) expression path
    return node :: (← checkEntries depth path expression rest)
termination_by structural es => es

def checkJunction (key : String) (depth : Nat) (path : String) (v : Value) : Outcome Node :=
  match v with
  | .list items | .tuple items => (checkItems key depth path 0 items).map (junction key)
  | v => reject (.junctionNotArray key v.typeName) v path
termination_by structural v

def checkItems (key : String) (depth : Nat) (path : String) (place : Nat) :
    List Value → Outcome (List Node)
  | [] => .ok []
  | v :: rest => do
    let node ←
      match v with
      | .object entries =>
        let path' := itemPath path place
        g.object (depth + 1) path' v fun _ => checkEntries (depth + 1) path' v entries
      | v => reject (.junctionItem key v.typeName) v (itemPath path place)
    return node :: (← checkItems key depth path (place + 1) rest)
termination_by structural vs => vs

def checkNot (depth : Nat) (path : String) (v : Value) : Outcome Node :=
  match v with
  | .list _ | .tuple _ => reject .notTakesOne v path
  | .object entries =>
    (g.object (depth + 1) path v fun _ => checkEntries (depth + 1) path v entries).map .not
  | v => reject (.notTakesObject v.typeName) v path
termination_by structural v

/-- The condition on a field: operators and fields do not mix in one object. -/
def checkCondition (depth : Nat) (path : String) (v : Value) : Outcome Condition :=
  match v with
  | .object entries =>
    let keys := entries.map (·.1)
    let operators := keys.filter isOperatorKey
    if !operators.isEmpty && operators.length != keys.length then
      reject (.mixedKeys operators (keys.filter fun k => !isOperatorKey k)) v path
    else if !operators.isEmpty then (checkTests g v path entries).map .tests
    else
      (g.object (depth + 1) path v fun _ => checkEntries (depth + 1) path v entries).map .nested
  | .list items | .tuple items => .ok (.anyOf (items.map .parseMember))
  | v => .ok (.literal (.parse v))
termination_by structural v

end

/-- The tree of an expression. -/
def check (expression : Value) : Outcome Node :=
  match expression with
  | .callable (.function name) => .ok (.predicate (.function name))
  | .text _ | .int _ | .float _ | .bool _ | .null | .date _ | .moment _ =>
    .ok (.anyProperty (.parse expression))
  | .object entries => g.object 1 "" expression fun _ => g.checkEntries 1 "" expression entries
  | v => reject (.notExpression v.typeName) v ""

end Grammar

/-- The smallest and the largest nesting limit. -/
def minMaxDepth : Int := 1
def maxMaxDepth : Int := 10

/-- The nesting limit that a value asks for. -/
def readMaxDepth (v : Value) : Outcome Nat :=
  let reject (e : OptionError) : Outcome Nat := .error (.options e (.text "max_depth") v)
  match v with
  | .int n =>
    if n < minMaxDepth ∨ maxMaxDepth < n then reject (.depthOutOfRange n) else .ok n.toNat
  | v => reject (.notInteger v.typeName)

/-- The tree of an expression, checked against a table and a nesting limit. -/
def validate (table : Table) (functions : Functions) (maxDepth expression : Value) : Outcome Node := do
  let limit ← readMaxDepth maxDepth
  Grammar.check ⟨table, functions, limit⟩ expression

end Winnow
