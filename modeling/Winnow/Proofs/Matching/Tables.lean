import Winnow.Matching.Match
import Winnow.Expression.Validation
/-! # What the version of a table does not decide

Checking and matching look at the operators of a table, never at its version: tables with the same
operators accept the same expressions with the same trees, and trees match the same records by them. -/

namespace Winnow

variable {table table' : Table} (t : Terms)

namespace Table

theorem find?_congr (h : table.operators = table'.operators) : table.find? = table'.find? := by
  funext key
  rw [find?, find?, h]

theorem test_congr (h : table.operators = table'.operators) : table.test t = table'.test t := by
  funext key operand actual
  rw [test, test, find?_congr h]

end Table

mutual

theorem Node.matches_congr (h : table.operators = table'.operators) (n : Node) (record : Value) :
    n.matches t table record = n.matches t table' record := by
  match n with
  | .all items _ => simp only [Node.matches, allMatch_congr h items]
  | .any items => simp only [Node.matches, anyMatches_congr h items]
  | .not item => simp only [Node.matches, item.matches_congr h]
  | .field path condition => simp only [Node.matches, condition.holds_congr h]
  | .anyProperty l => simp only [Node.matches]
  | .predicate c => simp only [Node.matches]
termination_by structural n

theorem allMatch_congr (h : table.operators = table'.operators) (ns : List Node) (record : Value) :
    allMatch t table ns record = allMatch t table' ns record := by
  match ns with
  | [] => simp only [allMatch]
  | n :: ns => simp only [allMatch, n.matches_congr h, allMatch_congr h ns]
termination_by structural ns

theorem anyMatches_congr (h : table.operators = table'.operators) (ns : List Node) (record : Value) :
    anyMatches t table ns record = anyMatches t table' ns record := by
  match ns with
  | [] => simp only [anyMatches]
  | n :: ns => simp only [anyMatches, n.matches_congr h, anyMatches_congr h ns]
termination_by structural ns

theorem Condition.holds_congr (h : table.operators = table'.operators) (c : Condition) (actual : Value) :
    c.holds t table actual = c.holds t table' actual := by
  match c with
  | .literal l => simp only [Condition.holds]
  | .tests ts => simp only [Condition.holds, allPass_congr h ts]
  | .anyOf members => simp only [Condition.holds]
  | .nested node => simp only [Condition.holds, node.matches_congr h]
termination_by structural c

theorem allPass_congr (h : table.operators = table'.operators) (ts : List Test) (actual : Value) :
    allPass t table ts actual = allPass t table' ts actual := by
  match ts with
  | [] => simp only [allPass]
  | test :: rest => simp only [allPass, test.passes_congr h, allPass_congr h rest]
termination_by structural ts

theorem Test.passes_congr (h : table.operators = table'.operators) (test : Test) (actual : Value) :
    test.passes t table actual = test.passes t table' actual := by
  match test with
  | .apply key operand _ => simp only [Test.passes, Table.test_congr t h]
  | .negate condition _ => simp only [Test.passes, condition.holds_congr h]
termination_by structural test

end

namespace Grammar

variable {f : Functions} {limit : Nat}

theorem checkTest_congr (h : table.operators = table'.operators) :
    checkTest ⟨table, f, limit⟩ = checkTest ⟨table', f, limit⟩ := by
  funext map key operand path
  simp only [checkTest, Table.lookup, Table.find?_congr h]

mutual

theorem checkTests_congr (h : table.operators = table'.operators) (map : Value) (path : String)
    (es : List (Value × Value)) :
    checkTests ⟨table, f, limit⟩ map path es = checkTests ⟨table', f, limit⟩ map path es := by
  match es with
  | [] => simp only [checkTests]
  | (k, operand) :: rest =>
    simp only [checkTests, checkTest_congr h, checkNegated_congr h operand, checkTests_congr h map path rest]
termination_by structural es

theorem checkNegated_congr (h : table.operators = table'.operators) (operand : Value) (path : String) :
    checkNegated ⟨table, f, limit⟩ operand path = checkNegated ⟨table', f, limit⟩ operand path := by
  cases operand with
  | object entries => simp only [checkNegated, checkTests_congr h _ path entries]
  | _ => rfl
termination_by structural operand

end

mutual

theorem checkEntries_congr (h : table.operators = table'.operators) (depth : Nat) (path : String)
    (expression : Value) (es : List (Value × Value)) :
    checkEntries ⟨table, f, limit⟩ depth path expression es =
      checkEntries ⟨table', f, limit⟩ depth path expression es := by
  match es with
  | [] => simp only [checkEntries]
  | (k, v) :: rest =>
    simp only [checkEntries, Table.lookup, Table.find?_congr h, checkJunction_congr h _ depth _ v,
      checkNot_congr h depth _ v, checkCondition_congr h depth _ v,
      checkEntries_congr h depth path expression rest]
termination_by structural es

theorem checkJunction_congr (h : table.operators = table'.operators) (key : String) (depth : Nat)
    (path : String) (v : Value) :
    checkJunction ⟨table, f, limit⟩ key depth path v = checkJunction ⟨table', f, limit⟩ key depth path v := by
  cases v with
  | list items | tuple items => simp only [checkJunction, checkItems_congr h key depth path 0 items]
  | _ => rfl
termination_by structural v

theorem checkItems_congr (h : table.operators = table'.operators) (key : String) (depth : Nat)
    (path : String) (place : Nat) (vs : List Value) :
    checkItems ⟨table, f, limit⟩ key depth path place vs =
      checkItems ⟨table', f, limit⟩ key depth path place vs := by
  match vs with
  | [] => simp only [checkItems]
  | v :: rest =>
    have hrest := checkItems_congr h key depth path (place + 1) rest
    cases v with
    | object entries => simp only [checkItems, object, checkEntries_congr h (depth + 1) _ _ entries, hrest]
    | _ => simp only [checkItems, hrest]
termination_by structural vs

theorem checkNot_congr (h : table.operators = table'.operators) (depth : Nat) (path : String) (v : Value) :
    checkNot ⟨table, f, limit⟩ depth path v = checkNot ⟨table', f, limit⟩ depth path v := by
  cases v with
  | object entries => simp only [checkNot, object, checkEntries_congr h (depth + 1) path _ entries]
  | _ => rfl
termination_by structural v

theorem checkCondition_congr (h : table.operators = table'.operators) (depth : Nat) (path : String)
    (v : Value) :
    checkCondition ⟨table, f, limit⟩ depth path v = checkCondition ⟨table', f, limit⟩ depth path v := by
  cases v with
  | object entries =>
    simp only [checkCondition, object, checkTests_congr h _ path entries,
      checkEntries_congr h (depth + 1) path _ entries]
  | _ => rfl
termination_by structural v

end

theorem check_congr (h : table.operators = table'.operators) (expression : Value) :
    check ⟨table, f, limit⟩ expression = check ⟨table', f, limit⟩ expression := by
  cases expression with
  | object entries => simp only [check, object, checkEntries_congr h 1 "" _ entries]
  | callable c => cases c <;> rfl
  | _ => rfl

end Grammar

theorem validate_congr (h : table.operators = table'.operators) (f : Functions)
    (maxDepth expression : Value) :
    validate table f maxDepth expression = validate table' f maxDepth expression := by
  simp only [validate, Grammar.check_congr h]

end Winnow
