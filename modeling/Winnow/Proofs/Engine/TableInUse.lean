import Winnow.Proofs.Engine.Debugging
import Winnow.Proofs.Expression.LookedUp
import Winnow.Proofs.Operator.Registered
/-! # The table that is given is the one in use

Checks, matchers and engines take the table that they are given, whatever the default is, unless it was empty when
they were made. So an expression is accepted only if the given table, as it is at that moment, holds the operators
that the expression uses, and every operator is applied as that table has it. The keys that combine conditions
are part of the grammar: they need no operator. -/

namespace Winnow

open Outcome

variable {t u made current default : Table} {q : KeyPlace} {key : String}

/-- The table that a check or a matcher works with, which keeps what it was made with: the given one, as it has
become since, or the default in the place of one that was empty. -/
def Table.inUse (made current default : Table) : Table := if made.operators.isEmpty then default else current

/-- Does the table hold an operator under the key that tests values, with a rule? -/
def Table.Holds (t : Table) (key : String) : Prop :=
  ∃ o r, o ∈ t.operators ∧ o.name = key ∧ o.structural = false ∧ o.rule = some r

/-- Does the table hold what the expression uses as operators, the logical keys aside? -/
def Value.HeldBy (x : Value) (t : Table) : Prop := ∀ q key, x.Uses q key → IsLogical q key ∨ t.Holds key

/-- Do the tables hold the same operators under the keys that the expression uses, the logical ones aside? -/
def Value.SameOperators (x : Value) (t u : Table) : Prop :=
  ∀ q key, x.Uses q key → IsLogical q key ∨ t.find? key = u.find? key

namespace Table

theorem inUse_given (h : made.operators ≠ []) : made.inUse current default = current := by
  rw [inUse, if_neg (by simpa using h)]

theorem Reaches.kept (h : t.Reaches u) (ht : t.Kept) : u.Kept := by
  induction h with
  | refl => exact ht
  | register _ _ _ hu ih => exact ih.register hu
  | unregister _ _ hu ih => exact ih.unregister hu

theorem Kept.holds (h : t.Kept) (hkey : t.Serves key) : t.Holds key := by
  obtain ⟨o, hfind, hstructural⟩ := hkey
  obtain ⟨ho, hname⟩ := h.find?_eq_some_iff.1 hfind
  obtain ⟨r, hr⟩ := h.ready o ho hstructural
  exact ⟨o, r, ho, hname, hstructural, hr⟩

/-- An operator that is registered is the one that is applied. -/
theorem Kept.test_eq (h : t.Kept) {o : OperatorInfo} (ho : o ∈ t.operators) (terms : Terms) (operand : Operand)
    (actual : Value) : t.test terms o.name operand actual = (o.test terms actual operand).orMiss := by
  rw [test, h.find?_eq_some_iff.2 ⟨ho, rfl⟩]

end Table

section Expressions

variable {functions : Functions} {x depth : Value} {n : Node}

theorem Table.Kept.heldBy (h : t.Kept) {y : Value} (hform : Canonical.ofValue x = Canonical.ofValue y)
    (hn : validate t functions depth y = .ok n) : x.HeldBy t :=
  fun _ _ hx => (logical_or_serves_of_validate hn hform hx).imp_right h.holds

theorem Value.SameOperators.validate_again (h : x.SameOperators t u) :
    Follows (Grammar.Again (Node.KeysIn fun key => t.find? key = u.find? key)) (validate t functions depth x)
      (validate u functions depth x) :=
  Winnow.validate_again fun q key hx => (h q key hx).imp_right fun hfind => ⟨hfind, hfind⟩

theorem Value.SameOperators.symm (h : x.SameOperators t u) : x.SameOperators u t :=
  fun q key hx => (h q key hx).imp_right Eq.symm

theorem Value.SameOperators.validate_iff (h : x.SameOperators t u) :
    validate t functions depth x = .ok n ↔ validate u functions depth x = .ok n := by
  have hto {t u : Table} (h : x.SameOperators t u) (hn : validate t functions depth x = .ok n) :
      validate u functions depth x = .ok n := by
    obtain ⟨_, hu, -, rfl⟩ := h.validate_again.exists_ok hn
    exact hu
  exact ⟨hto h, hto h.symm⟩

/-- A tree matches alike by tables that hold the same operators under the keys of its expression. -/
theorem Value.SameOperators.matches_eq (h : x.SameOperators t u) {earlier : Table}
    (hn : validate earlier functions depth x = .ok n) (terms : Terms) (record : Value) :
    n.matches terms t record = n.matches terms u record := by
  have hkeys : n.KeysIn fun key => t.find? key = u.find? key := by
    have hagain : Follows (Grammar.Again (Node.KeysIn fun key => t.find? key = u.find? key))
        (validate earlier functions depth x) (validate earlier functions depth x) :=
      Winnow.validate_again fun q key hx => (h q key hx).imp_right fun hfind => ⟨hfind, rfl⟩
    obtain ⟨_, -, hkeys, -⟩ := hagain.exists_ok hn
    exact hkeys
  exact n.matches_of_keysIn terms (fun _ hfind => hfind) hkeys record

end Expressions

namespace Engine

variable {e : Engine} {ss : List Step} {x maxDepth : Value} {n : Node} {settings : Settings} {shared : Bool}
  {environment : Environment} {now : Moment}

/-- What an engine accepts in a run is, or has the form of, what a fresh check accepts with its table. -/
theorem Made.check_of_validate (hm : Made settings t shared environment now e)
    (hfree : e.CollisionFree (ss ++ [.validate x maxDepth])) (hvalid : (validate x maxDepth (e.after ss)).1 = .ok n) :
    t.Reaches (e.after ss).table ∧ ∃ y depth, Canonical.ofValue x = Canonical.ofValue y ∧
      (e.withTable (e.after ss).table).check y depth = .ok n := by
  have hstart : Sound (historyOf e (ss ++ [.validate x maxDepth]) fun _ _ _ => True) e.table e :=
    Made.sound (hm.table.symm ▸ hm)
  have hs := hstart.before hfree (fun _ _ _ _ _ _ => trivial)
    fun _ _ _ _ _ _ => .of_forall fun _ _ _ => trivial
  have hl := hs.lists_next
  have hcurrent := historyOf_current (fun _ _ _ => True) hfree
    (tables_append_left (mem_tables_last ss e.table))
  have hcomes := (validate_ensures hcurrent _ _ (hl.requested _ rfl)
    (fun bytes hb => hl.digested bytes (Outcome.mem_toList.2 hb)) _ hs).2
  rw [hvalid] at hcomes
  rw [hs.table]
  refine ⟨lastTable_reaches ss (hm.table.symm ▸ .refl t), ?_⟩
  generalize hr : Except.ok n = r at hcomes ⊢
  cases hcomes with
  | keyless => cases hr
  | fresh => exact ⟨x, _, rfl, rfl⟩
  | kept _ _ hform hcheck =>
    cases hr
    exact ⟨_, _, hform.symm, hcheck⟩

/-- An engine accepts an expression only if its table, as it is at that moment, holds what the expression uses. -/
theorem heldBy_of_validate (hmake : Engine.make? settings t shared environment now = .ok e) (ht : t.Kept)
    (htable : shared = true ∨ (e.after ss).table.operators ≠ [])
    (hfree : e.CollisionFree (ss ++ [.validate x maxDepth])) (hvalid : (validate x maxDepth (e.after ss)).1 = .ok n) :
    x.HeldBy (e.after ss).table := by
  have hm := make?_made hmake
  obtain ⟨hreaches, y, depth, hform, hcheck⟩ := hm.check_of_validate hfree hvalid
  have hchecking : (e.withTable (e.after ss).table).checkingTable = (e.after ss).table :=
    checkingTable_eq_table (htable.imp_left hm.sharesTable.trans)
  rw [check, hchecking] at hcheck
  exact (hreaches.kept ht).heldBy hform hcheck

end Engine

/-- With a table that was not empty when it was given, whatever the default is: an expression is accepted only if
the table holds what the expression uses, and nothing else that a table holds, under the logical keys or elsewhere,
decides whether it is accepted; engines accept only what their table holds at every moment of a run. A matcher
applies every operator as the table has it, depends on nothing else that a table holds, and matches the same with
a trace. -/
theorem given_table_in_use (hmade : Table.empty.Reaches made ∨ Table.builtins.Reaches made)
    (hcurrent : made.Reaches current) (hgiven : made.operators ≠ []) (default : Table) :
    (∀ functions depth x n, validate (made.inUse current default) functions depth x = .ok n → x.HeldBy current) ∧
    (∀ other functions depth x n, x.SameOperators current other →
      (validate (made.inUse current default) functions depth x = .ok n ↔ validate other functions depth x = .ok n)) ∧
    (∀ settings shared environment now e ss x maxDepth n,
      Engine.make? settings (made.orDefault default) shared environment now = .ok e →
      (shared = true ∨ (e.after ss).table.operators ≠ []) → e.CollisionFree (ss ++ [.validate x maxDepth]) →
      (Engine.validate x maxDepth (e.after ss)).1 = .ok n → x.HeldBy (e.after ss).table) ∧
    (∀ o ∈ current.operators, ∀ terms operand actual,
      (made.inUse current default).test terms o.name operand actual = (o.test terms actual operand).orMiss) ∧
    (∀ earlier other functions depth x n, validate earlier functions depth x = .ok n →
      x.SameOperators current other → ∀ terms record,
        n.matches terms (made.inUse current default) record = n.matches terms other record) ∧
    ∀ timed n objects store (calls : List (Terms × Value)),
      (answers (fun s (call : Terms × Value) => Tracer.test call.1 (made.inUse current default) s call.2)
        (store, Tracer.ofNode (made.inUse current default) timed n objects) calls).1 =
      (answers (fun store (call : Terms × Value) =>
        (n.matches call.1 current call.2).runState PatternStore.answer store) store calls).1 := by
  have hkept : made.Kept := hmade.elim (·.kept Table.kept_empty) (·.kept Table.kept_builtins)
  have hkept' : current.Kept := hcurrent.kept hkept
  have horDefault : made.orDefault default = made := Table.inUse_given hgiven
  rw [Table.inUse_given hgiven, horDefault]
  refine ⟨?_, ?_, ?_, ?_, ?_, ?_⟩
  · exact fun functions depth x n hn => hkept'.heldBy rfl hn
  · exact fun other functions depth x n hsame => hsame.validate_iff
  · intro settings shared environment now e ss x maxDepth n hmake htable hfree hvalid
    exact Engine.heldBy_of_validate hmake hkept htable hfree hvalid
  · exact fun o ho terms operand actual => hkept'.test_eq ho terms operand actual
  · exact fun earlier other functions depth x n hn hsame terms record => hsame.matches_eq hn terms record
  · intro timed n objects store calls
    exact (Tracer.answers_eq_of_fits current calls (Ledger.ofNode_fits n objects)).1

/-- An operator of one's own in the place of equality. -/
def ownEquality : OperatorInfo := ⟨"$eq", .comparison, some (.custom (.function "even")), .anything, "EVEN", "", false⟩

def withOwnEquality : Table := ⟨Table.put ownEquality Table.builtinOperators, Table.builtins.version + 1⟩

theorem given_table_in_use_own_equality : Table.builtins.register ownEquality true = .ok withOwnEquality ∧
    (∃ e, Engine.IsStandard e ∧ (Engine.fieldQuery (.int 1)).HeldBy (e.after []).table) ∧
    (Engine.fieldQuery (.int 1)).HeldBy withOwnEquality ∧
    (∀ terms operand actual, (Table.builtins.inUse withOwnEquality Table.empty).test terms "$eq" operand actual =
      (ownEquality.test terms actual operand).orMiss) ∧
    ∀ terms record,
      (Engine.fieldNode (.int 1)).matches terms (Table.builtins.inUse withOwnEquality Table.empty) record =
        (Engine.fieldNode (.int 1)).matches terms withOwnEquality record := by
  obtain ⟨e, he⟩ := Engine.exists_isStandard
  have hm := Engine.make?_made he
  have hregister : Table.builtins.register ownEquality true = .ok withOwnEquality := rfl
  obtain ⟨haccept, -, hengine, hown, hmatches, -⟩ :=
    given_table_in_use (.inr (.refl _)) (.register ownEquality true (.refl _) hregister) (List.cons_ne_nil _ _)
      Table.empty
  have hvalid : validate (Table.builtins.inUse withOwnEquality Table.empty) Functions.standard (.int 3)
      (Engine.fieldQuery (.int 1)) = .ok (Engine.fieldNode (.int 1)) := rfl
  have hbytes : ∃ bytes, e.expressionBytes (Engine.fieldQuery (.int 1)) (.int 3) = .ok bytes := by
    rw [Engine.expressionBytes, hm.table]
    exact Outcome.exists_eq_ok (by cbv)
  obtain ⟨bytes, hbytes⟩ := hbytes
  have hunused : e.Unused := ⟨hm.expressions, hm.room⟩
  have hkept : (Engine.validate (Engine.fieldQuery (.int 1)) (.int 3) e).1 = .ok (Engine.fieldNode (.int 1)) :=
    (hunused.validate_eq rfl hbytes).trans (Engine.check_fieldQuery he _)
  have hfree : e.CollisionFree ([] ++ [.validate (Engine.fieldQuery (.int 1)) (.int 3)]) := by
    refine Engine.collisionFree_of_one bytes fun b hb => ?_
    rcases Engine.mem_messages_validate hb with hb | hb
    · cases hb
    · exact Except.ok.inj (hb.symm.trans hbytes)
  refine ⟨hregister, ⟨e, he, ?_⟩, haccept _ _ _ _ hvalid, ?_, ?_⟩
  · refine hengine _ _ _ _ e [] _ _ _ he (.inr ?_) hfree hkept
    rw [Engine.after, hm.table]
    exact List.cons_ne_nil _ _
  · exact hown ownEquality (List.mem_cons_self ..)
  · exact hmatches _ _ _ _ _ _ hvalid fun _ _ _ => .inr rfl

/-- A conjunction of nothing. -/
def emptyConjunction : Value := .ofPairs [(andKey, .list [])]

/-- A table without the key of conjunctions accepts them. -/
theorem given_table_lacks_conjunction : ∃ t, Table.builtins.unregister andKey = .ok t ∧ t.operators ≠ [] ∧
    t.contains andKey = false ∧ emptyConjunction.Uses .object andKey ∧
    validate t Functions.standard (.int 3) emptyConjunction = .ok (.all [] false) := by
  refine ⟨⟨Table.builtinOperators.filter (·.name != andKey), Table.builtins.version + 1⟩, rfl, ?_, ?_, ?_, rfl⟩
  · exact List.cons_ne_nil _ _
  · decide +kernel
  · exact ⟨_, rfl, .here (List.mem_singleton_self _) (by decide)⟩

end Winnow
