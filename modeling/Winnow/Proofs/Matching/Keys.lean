import Winnow.Matching.Match
/-! # What matching takes from a table

Matching looks up the keys of a tree's tests and no others: tables that hold the same operators under these
keys match the same records. -/

namespace Winnow

variable (K : String → Prop)

mutual

/-- Are the keys of all tests of the node in a set? -/
def Node.KeysIn : Node → Prop
  | .all items _ | .any items => AllKeysIn items
  | .not item => item.KeysIn
  | .field _ condition => condition.KeysIn
  | .anyProperty _ | .predicate _ => True
termination_by structural n => n

def AllKeysIn : List Node → Prop
  | [] => True
  | n :: ns => n.KeysIn ∧ AllKeysIn ns
termination_by structural ns => ns

def Condition.KeysIn : Condition → Prop
  | .literal _ | .anyOf _ => True
  | .tests ts => TestsKeysIn ts
  | .nested node => node.KeysIn
termination_by structural c => c

def TestsKeysIn : List Test → Prop
  | [] => True
  | test :: rest => test.KeysIn ∧ TestsKeysIn rest
termination_by structural ts => ts

def Test.KeysIn : Test → Prop
  | .apply key _ _ => K key
  | .negate condition _ => condition.KeysIn
termination_by structural test => test

end

variable {K} {table table' : Table} (t : Terms)

theorem allKeysIn_iff {ns : List Node} : AllKeysIn K ns ↔ ∀ n ∈ ns, n.KeysIn K := by
  induction ns with
  | nil => simp [AllKeysIn]
  | cons n ns ih => simp [AllKeysIn, ih]

theorem testsKeysIn_iff {ts : List Test} : TestsKeysIn K ts ↔ ∀ test ∈ ts, test.KeysIn K := by
  induction ts with
  | nil => simp [TestsKeysIn]
  | cons test ts ih => simp [TestsKeysIn, ih]

mutual

theorem Node.matches_of_keysIn (h : ∀ key, K key → table.find? key = table'.find? key) (n : Node)
    (hn : n.KeysIn K) (record : Value) : n.matches t table record = n.matches t table' record := by
  match n with
  | .all items _ => simp only [Node.matches, allMatch_of_keysIn h items hn]
  | .any items => simp only [Node.matches, anyMatches_of_keysIn h items hn]
  | .not item => simp only [Node.matches, item.matches_of_keysIn h hn]
  | .field path condition => simp only [Node.matches, condition.holds_of_keysIn h hn]
  | .anyProperty l => simp only [Node.matches]
  | .predicate c => simp only [Node.matches]
termination_by structural n

theorem allMatch_of_keysIn (h : ∀ key, K key → table.find? key = table'.find? key) (ns : List Node)
    (hns : AllKeysIn K ns) (record : Value) : allMatch t table ns record = allMatch t table' ns record := by
  match ns with
  | [] => simp only [allMatch]
  | n :: ns => simp only [allMatch, n.matches_of_keysIn h hns.1, allMatch_of_keysIn h ns hns.2]
termination_by structural ns

theorem anyMatches_of_keysIn (h : ∀ key, K key → table.find? key = table'.find? key) (ns : List Node)
    (hns : AllKeysIn K ns) (record : Value) : anyMatches t table ns record = anyMatches t table' ns record := by
  match ns with
  | [] => simp only [anyMatches]
  | n :: ns => simp only [anyMatches, n.matches_of_keysIn h hns.1, anyMatches_of_keysIn h ns hns.2]
termination_by structural ns

theorem Condition.holds_of_keysIn (h : ∀ key, K key → table.find? key = table'.find? key) (c : Condition)
    (hc : c.KeysIn K) (actual : Value) : c.holds t table actual = c.holds t table' actual := by
  match c with
  | .literal l => simp only [Condition.holds]
  | .tests ts => simp only [Condition.holds, allPass_of_keysIn h ts hc]
  | .anyOf members => simp only [Condition.holds]
  | .nested node => simp only [Condition.holds, node.matches_of_keysIn h hc]
termination_by structural c

theorem allPass_of_keysIn (h : ∀ key, K key → table.find? key = table'.find? key) (ts : List Test)
    (hts : TestsKeysIn K ts) (actual : Value) : allPass t table ts actual = allPass t table' ts actual := by
  match ts with
  | [] => simp only [allPass]
  | test :: rest => simp only [allPass, test.passes_of_keysIn h hts.1, allPass_of_keysIn h rest hts.2]
termination_by structural ts

theorem Test.passes_of_keysIn (h : ∀ key, K key → table.find? key = table'.find? key) (test : Test)
    (htest : test.KeysIn K) (actual : Value) : test.passes t table actual = test.passes t table' actual := by
  match test with
  | .apply key operand _ => simp only [Test.passes, Table.test, h key htest]
  | .negate condition _ => simp only [Test.passes, condition.holds_of_keysIn h htest]
termination_by structural test

end

end Winnow
