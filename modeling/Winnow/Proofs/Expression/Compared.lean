import Winnow.Matching.Match
/-! # What a tree compares with

`Node.Compares P` says that every value that a tree compares others with has a property: literals, members of
lists, and operands that are used as they were given or item by item. `Node.mapRaw` changes the operands as
they were written, of which matching takes no notice. -/

namespace Winnow

/-- Has every value that the operand is compared by the property? -/
def Operand.Compares (P : Value → Prop) : Operand → Prop
  | .value v => P v
  | .items vs => ∀ v ∈ vs, P v
  | _ => True

section

variable (P : Value → Prop)

mutual

def Node.Compares : Node → Prop
  | .all items _ | .any items => AllCompare items
  | .not item => item.Compares
  | .field _ condition => condition.Compares
  | .anyProperty l => P l.value
  | .predicate _ => True
termination_by structural n => n

def AllCompare : List Node → Prop
  | [] => True
  | n :: ns => n.Compares ∧ AllCompare ns
termination_by structural ns => ns

def Condition.Compares : Condition → Prop
  | .literal l => P l.value
  | .tests ts => TestsCompare ts
  | .anyOf members => ∀ l ∈ members, P l.value
  | .nested node => node.Compares
termination_by structural c => c

def TestsCompare : List Test → Prop
  | [] => True
  | test :: rest => test.Compares ∧ TestsCompare rest
termination_by structural ts => ts

def Test.Compares : Test → Prop
  | .apply _ operand _ => operand.Compares P
  | .negate condition _ => condition.Compares
termination_by structural test => test

end

variable {P}

theorem allCompare_iff {ns : List Node} : AllCompare P ns ↔ ∀ n ∈ ns, n.Compares P := by
  induction ns with
  | nil => simp [AllCompare]
  | cons n ns ih => simp [AllCompare, ih]

theorem testsCompare_iff {ts : List Test} : TestsCompare P ts ↔ ∀ test ∈ ts, test.Compares P := by
  induction ts with
  | nil => simp [TestsCompare]
  | cons test rest ih => simp [TestsCompare, ih]

end

/-! ## Operands as they were written -/

section

variable (f : Value → Value)

mutual

/-- The tree with the operands as written changed. -/
def Node.mapRaw : Node → Node
  | .all items i => .all (mapRawAll items) i
  | .any items => .any (mapRawAll items)
  | .not item => .not item.mapRaw
  | .field path condition => .field path condition.mapRaw
  | .anyProperty l => .anyProperty l
  | .predicate c => .predicate c
termination_by structural n => n

def mapRawAll : List Node → List Node
  | [] => []
  | n :: ns => n.mapRaw :: mapRawAll ns
termination_by structural ns => ns

def Condition.mapRaw : Condition → Condition
  | .literal l => .literal l
  | .tests ts => .tests (mapRawTests ts)
  | .anyOf members => .anyOf members
  | .nested node => .nested node.mapRaw
termination_by structural c => c

def mapRawTests : List Test → List Test
  | [] => []
  | test :: rest => test.mapRaw :: mapRawTests rest
termination_by structural ts => ts

def Test.mapRaw : Test → Test
  | .apply key operand raw => .apply key operand (f raw)
  | .negate condition raw => .negate condition.mapRaw (f raw)
termination_by structural test => test

end

theorem mapRawAll_eq (ns : List Node) : mapRawAll f ns = ns.map (Node.mapRaw f) := by
  induction ns with
  | nil => rfl
  | cons n ns ih => rw [mapRawAll, ih, List.map_cons]

theorem mapRawTests_eq (ts : List Test) : mapRawTests f ts = ts.map (Test.mapRaw f) := by
  induction ts with
  | nil => rfl
  | cons test rest ih => rw [mapRawTests, ih, List.map_cons]

variable (t : Terms) (table : Table)

mutual

/-- Matching takes no notice of operands as they were written. -/
theorem Node.matches_mapRaw (n : Node) (record : Value) :
    (n.mapRaw f).matches t table record = n.matches t table record := by
  match n with
  | .all items i => rw [Node.mapRaw, Node.matches, Node.matches, allMatch_mapRaw items record]
  | .any items => rw [Node.mapRaw, Node.matches, Node.matches, anyMatches_mapRaw items record]
  | .not item => rw [Node.mapRaw, Node.matches, Node.matches, item.matches_mapRaw record]
  | .field path condition => rw [Node.mapRaw, Node.matches, Node.matches, condition.holds_mapRaw]
  | .anyProperty l => rw [Node.mapRaw]
  | .predicate c => rw [Node.mapRaw]
termination_by structural n

theorem allMatch_mapRaw (ns : List Node) (record : Value) :
    allMatch t table (mapRawAll f ns) record = allMatch t table ns record := by
  match ns with
  | [] => rw [mapRawAll]
  | n :: ns => rw [mapRawAll, allMatch, allMatch, n.matches_mapRaw record, allMatch_mapRaw ns record]
termination_by structural ns

theorem anyMatches_mapRaw (ns : List Node) (record : Value) :
    anyMatches t table (mapRawAll f ns) record = anyMatches t table ns record := by
  match ns with
  | [] => rw [mapRawAll]
  | n :: ns => rw [mapRawAll, anyMatches, anyMatches, n.matches_mapRaw record, anyMatches_mapRaw ns record]
termination_by structural ns

theorem Condition.holds_mapRaw (c : Condition) (actual : Value) :
    (c.mapRaw f).holds t table actual = c.holds t table actual := by
  match c with
  | .literal l => rw [Condition.mapRaw]
  | .tests ts => rw [Condition.mapRaw, Condition.holds, Condition.holds, allPass_mapRaw ts actual]
  | .anyOf members => rw [Condition.mapRaw]
  | .nested node =>
    rw [Condition.mapRaw, Condition.holds, Condition.holds]
    exact congrArg (Evaluation.anyItem · actual.subrecords) (funext node.matches_mapRaw)
termination_by structural c

theorem allPass_mapRaw (ts : List Test) (actual : Value) :
    allPass t table (mapRawTests f ts) actual = allPass t table ts actual := by
  match ts with
  | [] => rw [mapRawTests]
  | test :: rest => rw [mapRawTests, allPass, allPass, test.passes_mapRaw actual, allPass_mapRaw rest actual]
termination_by structural ts

theorem Test.passes_mapRaw (test : Test) (actual : Value) :
    (test.mapRaw f).passes t table actual = test.passes t table actual := by
  match test with
  | .apply key operand raw => rw [Test.mapRaw, Test.passes, Test.passes]
  | .negate condition raw => rw [Test.mapRaw, Test.passes, Test.passes, condition.holds_mapRaw actual]
termination_by structural test

end

end

end Winnow
