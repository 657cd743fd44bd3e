import Winnow.Proofs.Engine.TableInUse
import Winnow.Proofs.Engine.Wildcards
import Winnow.Proofs.Expression.Depth
import Winnow.Proofs.Pattern.Gates
import Winnow.Proofs.Time.IsoText
/-! # Two gates for patterns

A text that is searched for passes a check when its expression is accepted, and another one when it is compiled
for a record. Both ask that it is free of nested quantifiers and well formed. But the check of expressions has a
limit of its own on the length, while the store of patterns is given one by the settings, so the gates agree on a
text just when it is within both limits or beyond both, or is refused anyway. -/

namespace Winnow

open Outcome

variable {s f : String} {b : Builtin} {limit : Int}

/-- A query for the records of which a field passes an operator with a text. -/
def textTest (f : String) (b : Builtin) (s : String) : Value := .ofPairs [(f, .ofPairs [(b.key, .text s)])]

def textTestNode (f : String) (b : Builtin) (s : String) : Node :=
  .field f (.tests [.apply b.key (.value (.text s)) (.text s)])

/-- Does the operator search for a pattern? -/
def Builtin.Searches (b : Builtin) : Prop := b = .regex ∨ b = .search

theorem Builtin.Searches.check_eq (h : b.Searches) (v : Value) (path : String) :
    b.check v path = Operand.Site.pattern ⟨v, path⟩ := by
  rcases h with rfl | rfl <;> rfl

/-- A test with a text is accepted when its operator accepts the text. -/
theorem validate_textTest {table : Table} {functions : Functions} {depth : Nat} {n : Node} (hb : b.Searches)
    (hf : isOperatorKey (.text f) = false) (hdepth : 1 ≤ depth) (hdepth' : depth ≤ 10)
    (hinfo : table.find? b.key = some (.ofBuiltin b)) :
    validate table functions (.int depth) (textTest f b s) = .ok n ↔
      (Admissible s ∧ s.length ≤ Operand.Site.maxPatternLength) ∧ n = textTestNode f b s := by
  rw [validate_int hdepth hdepth']
  refine (Grammar.check_field hf).trans ?_
  rw [and_iff_right hdepth, Grammar.checkCondition_builtin hinfo]
  simp only [Outcome.map_eq_ok, hb.check_eq, Operand.Site.pattern_eq_ok]
  constructor
  · rintro ⟨_, ⟨_, ⟨hs, rfl⟩, rfl⟩, rfl⟩
    exact ⟨hs, rfl⟩
  · rintro ⟨hs, rfl⟩
    exact ⟨_, ⟨_, ⟨hs, rfl⟩, rfl⟩, rfl⟩

/-! ## Expressions with the form of a test -/

/-- Only a text has the form of a text. -/
theorem Canonical.eq_text_of_ofValue {v : Value} (h : ofValue v = .text s) : v = .text s := by
  cases v with
  | int j =>
    rw [ofValue_int] at h
    split at h <;> cases h
  | _ => first | exact h | cases h

/-- Accepted entries with the form of one entry are one entry. -/
theorem Grammar.eq_singleton_of_form {g : Grammar} {p : KeyPlace} {key : String} {v : Value}
    {fs : List (Value × Value)} (hfs : g.Accepts p fs)
    (hform : Canonical.ofValue (.ofPairs [(key, v)]) = Canonical.ofValue (.object fs)) : ∃ w,
      fs = [(.text key, w)] ∧ g.AcceptedEntry p (.text key, w) ∧ Canonical.ofValue w = Canonical.ofValue v := by
  have horder := Canonical.orderKeys_eq_of_ofValue hform
  have hperm : (Canonical.formEntries fs).Perm [(key, Canonical.ofValue v)] :=
    (Canonical.orderKeys_perm _).symm.trans (horder ▸ Canonical.orderKeys_perm _)
  obtain ⟨⟨k, w⟩, rfl, heq⟩ := List.map_eq_singleton_iff.1 (List.perm_singleton.1 hperm)
  obtain ⟨hdisplay, hw⟩ := Prod.mk.inj heq
  have hentry := hfs.entry (List.mem_singleton_self _)
  have hkey : k = .text key := by
    cases hentry <;> exact congrArg Value.text hdisplay
  subst hkey
  exact ⟨w, rfl, hentry, hw⟩

/-- What is accepted and has the form of a test with a text is that test. -/
theorem eq_textTest_of_form {table : Table} {functions : Functions} {y depth : Value} {n : Node}
    (hf : isOperatorKey (.text f) = false) (hy : validate table functions depth y = .ok n)
    (hform : Canonical.ofValue (textTest f b s) = Canonical.ofValue y) : y = textTest f b s := by
  obtain ⟨fs, rfl⟩ := Grammar.eq_object_of_form hform.symm
  obtain ⟨g, -, hfs⟩ := accepts_of_validate hy
  obtain ⟨w, rfl, hentry, hw⟩ := Grammar.eq_singleton_of_form hfs hform
  obtain ⟨gs, rfl⟩ := Grammar.eq_object_of_form hw
  have hgs : g.Accepts .field gs := by
    cases hentry with
    | junction hkey =>
      rw [Grammar.isOperatorKey_of_logical (hkey.imp_right .inl)] at hf
      cases hf
    | negation => cases hf
    | field _ h => exact h gs rfl
  obtain ⟨v, rfl, -, hv⟩ := Grammar.eq_singleton_of_form hgs hw.symm
  rw [Canonical.eq_text_of_ofValue hv]
  rfl

namespace Engine

variable {e e₀ : Engine} {ss : List Step} {t : Table} {settings : Settings} {shared : Bool}
  {environment : Environment} {now : Moment} {depth : Nat} {o : Options}

/-- Does the engine accept the text as the operand of a test on the field? -/
def AcceptsText (e : Engine) (f : String) (b : Builtin) (s : String) (depth : Nat) : Prop :=
  ∃ n, (validate (textTest f b s) (.int depth) e).1 = .ok n

/-- Is the text compiled when a record is tested with the options? -/
def CompilesText (e : Engine) (o : Options) (s : String) : Prop :=
  ∃ p, (e.patterns.answer s (o.terms e.now e.environment.functions).patternFlags).1 = .ok (some p)

theorem compileAnswer_eq_some {flags : Int} {p : Pattern.Program} :
    compileAnswer limit s flags = .ok (some p) ↔ compileSource limit s flags = .ok (.ok p) := by
  unfold compileAnswer
  rcases compileSource limit s flags with _ | _ | q <;> simp [Except.toOption]

/-- Matching compiles the admissible texts within the limit of the store. -/
theorem compilesText_iff (h : e.Usable) :
    e.CompilesText o s ↔ Admissible s ∧ s.length ≤ e.patterns.maxLength := by
  rw [← compileSource_ok_iff (o.terms e.now e.environment.functions)]
  simp only [CompilesText, (h.patterns.answer _ _).1, compileAnswer_eq_some]

theorem Reached.after (h : e₀.Reached e) : e₀.Reached (e.after ss) := by
  induction ss generalizing e with
  | nil => exact h
  | cons s ss ih => exact ih (.step s h)

/-- With a key, what a fresh check accepts is accepted. -/
theorem exists_validate_of_check {x maxDepth : Value} {bytes : List UInt8} {n : Node}
    (hbytes : e.expressionBytes x (e.depthOf maxDepth) = .ok bytes)
    (hcheck : e.check x (e.depthOf maxDepth) = .ok n) : ∃ m, (validate x maxDepth e).1 = .ok m := by
  rw [validate_run, expressionKey_of_bytes hbytes]
  rcases hget : e.expressions.get (e.environment.digest bytes) with ⟨_ | m, expressions⟩
  · simp only [hget, hcheck]
    exact ⟨n, rfl⟩
  · simp only [hget]
    exact ⟨m, rfl⟩

/-- A test with a short text has a key. -/
theorem exists_bytes_textTest (hsize : f.utf8ByteSize < 2 ^ 32) (hversion : e.table.version < 2 ^ 64)
    (hdepth' : depth ≤ 10) (hs : s.length ≤ Operand.Site.maxPatternLength) :
    ∃ bytes, e.expressionBytes (textTest f b s) (.int depth) = .ok bytes := by
  have htext : s.utf8ByteSize < 2 ^ 32 := by
    have hbound := utf8ByteSize_ofList_le s.toList
    rw [String.ofList_toList, String.length_toList] at hbound
    simp only [Operand.Site.maxPatternLength] at hs
    omega
  have hkey : b.key.utf8ByteSize < 2 ^ 32 := by cases b <;> decide
  have htests : Canonical.FitsIn (506 + 1) (.ofPairs [(b.key, .text s)]) :=
    Canonical.fitsIn_ofPairs (by simp) (by simpa using hkey) (by simpa using Canonical.fitsIn_text htext)
  have hquery : Canonical.Fits (textTest f b s) :=
    Canonical.fitsIn_ofPairs (by simp) (by simpa using hsize) (by simpa using htests)
  exact Canonical.bytes_triple.2 ⟨hquery, Canonical.fitsIn_nat (by omega), Canonical.fitsIn_nat hversion⟩

/-- In a run, the engine accepts the admissible texts within the limit of the check. -/
theorem acceptsText_iff (hmake : Engine.make? settings t shared environment now = .ok e) (hb : b.Searches)
    (hf : isOperatorKey (.text f) = false) (hsize : f.utf8ByteSize < 2 ^ 32) (hdepth : 1 ≤ depth)
    (hdepth' : depth ≤ 10) (hinfo : (e.after ss).table.find? b.key = some (.ofBuiltin b))
    (hversion : (e.after ss).table.version < 2 ^ 64)
    (hfree : e.CollisionFree (ss ++ [.validate (textTest f b s) (.int depth)])) :
    (e.after ss).AcceptsText f b s depth ↔ Admissible s ∧ s.length ≤ Operand.Site.maxPatternLength := by
  have hnonempty : (e.after ss).table.operators ≠ [] := by
    intro hempty
    rw [Table.find?, hempty] at hinfo
    cases hinfo
  constructor
  · rintro ⟨n, hn⟩
    obtain ⟨-, y, limit, hform, hcheck⟩ := (make?_made hmake).check_of_validate hfree hn
    obtain ⟨k, rfl, hk, hk'⟩ := check_depth hcheck
    obtain ⟨k, rfl⟩ := Int.eq_ofNat_of_zero_le (show 0 ≤ k by omega)
    have hchecking : (e.withTable (e.after ss).table).checkingTable = (e.after ss).table :=
      checkingTable_eq_table (.inr hnonempty)
    rw [check, hchecking] at hcheck
    obtain rfl := eq_textTest_of_form hf hcheck hform
    exact ((validate_textTest hb hf (by omega) (by omega) hinfo).1 hcheck).1
  · intro hs
    obtain ⟨bytes, hbytes⟩ := exists_bytes_textTest (f := f) (b := b) hsize hversion hdepth' hs.2
    have hcheck : (e.after ss).check (textTest f b s) (.int depth) = .ok (textTestNode f b s) := by
      rw [check, checkingTable_eq_table (.inr hnonempty)]
      exact (validate_textTest hb hf hdepth hdepth' hinfo).2 ⟨hs, rfl⟩
    exact exists_validate_of_check hbytes hcheck

/-- A search for a text that is not compiled fails. -/
theorem searchTest_of_not_compiled {terms : Terms} (h : compileAnswer limit s terms.patternFlags = .ok none)
    (actual : Value) :
    (Builtin.searchTest terms actual (.value (.text s))).orMiss.run (compileAnswer limit) = .ok false := by
  cases actual with
  | text =>
    simp only [Builtin.searchTest, Evaluation.orMiss, Evaluation.run, h]
    rfl
  | _ => rfl

/-- A test with an admissible text that is not compiled fails on every record. -/
theorem test_of_not_compiled (husable : e.Usable) (hb : b.Searches)
    (hinfo : e.table.find? b.key = some (.ofBuiltin b)) (hs : Admissible s) (hnot : ¬e.CompilesText o s)
    (record : Value) : (e.test o (textTestNode f b s) e.patterns record).1 = .ok false := by
  have hlong : e.patterns.maxLength < s.length := by
    by_contra hshort
    exact hnot ((compilesText_iff husable).2 ⟨hs, Int.not_lt.1 hshort⟩)
  have hrefused : compileAnswer e.patterns.maxLength s
      (o.terms e.now e.environment.functions).patternFlags = .ok none := by
    rw [compileAnswer, compileSource, hazard?, if_pos hlong]
    rfl
  have htest (terms : Terms) (actual : Value) : e.table.test terms b.key (.value (.text s)) actual =
      (Builtin.searchTest terms actual (.value (.text s))).orMiss := by
    rw [Table.test, hinfo]
    rcases hb with rfl | rfl <;> rfl
  rw [test, (husable.patterns.runState _).1, textTestNode, Node.matches, Condition.holds, allPass,
    Evaluation.run_bind, Test.passes, htest, searchTest_of_not_compiled hrefused]
  rfl

/-! ## Limits -/

theorem admissible_patternSource (p : String) : Admissible (Wildcard.patternSource p) := by
  have hnone : hazard? (Wildcard.patternSource p) (Wildcard.patternSource p).length = none := by
    rw [Wildcard.hazard?_patternSource, if_neg (Int.lt_irrefl _)]
  exact ⟨(hazard?_eq_none_iff.1 hnone).2, _, Wildcard.compile_patternSource p (.inl rfl)⟩

theorem exists_admissible (n : Nat) : ∃ s, Admissible s ∧ s.length = n := by
  match n with
  | 0 => exact ⟨"", ⟨rfl, _, rfl⟩, rfl⟩
  | 1 => exact ⟨"a", ⟨rfl, _, rfl⟩, rfl⟩
  | n + 2 => exact ⟨_, admissible_patternSource (repeated '_' n), length_patternSource_repeated n⟩

/-- There are texts that tell any other limit from that of the check. -/
theorem limits_agree_iff : (∀ s, Admissible s → (s.length ≤ 1000 ↔ s.length ≤ limit)) ↔ limit = 1000 := by
  constructor
  · intro hall
    by_contra hne
    by_cases hless : limit < 1000
    · obtain ⟨s, hs, hlength⟩ := exists_admissible (limit + 1).toNat
      have hagree := hall s hs
      omega
    · obtain ⟨s, hs, hlength⟩ := exists_admissible 1001
      have hagree := hall s hs
      omega
  · rintro rfl s -
    omega

/-! ## Agreement -/

/-- Settings in which patterns may have so many characters. -/
def patternsUpTo (n : Int) : Settings :=
  { Settings.standard with validationConfig := [("max_regex_length", .int n)] }

/-- A new engine with the built-in operators, in which patterns may have so many characters. -/
abbrev IsLimited (n : Int) (e : Engine) : Prop :=
  Engine.make? (patternsUpTo n) Table.builtins false Environment.standard noon = .ok e

theorem exists_isLimited (n : Int) : ∃ e, IsLimited n e := ⟨_, rfl⟩

/-- A run of one validation has no collision. -/
theorem collisionFree_validate (x maxDepth : Value) : e.CollisionFree ([] ++ [.validate x maxDepth]) := by
  intro a ha b hb _
  rcases mem_messages_validate ha with ha | ha
  · cases ha
  rcases mem_messages_validate hb with hb | hb
  · cases hb
  exact Except.ok.inj (ha.symm.trans hb)

/-- A new engine with the built-in operators has all of them. -/
theorem Made.find?_builtin (hm : Made settings Table.builtins shared environment now e) (b : Builtin) :
    (e.after []).table.find? b.key = some (.ofBuiltin b) ∧ (e.after []).table.version < 2 ^ 64 := by
  rw [after, hm.table]
  exact ⟨Table.find?_builtin b, by decide⟩

theorem acceptsText_of_fresh (hmake : Engine.make? settings Table.builtins shared environment now = .ok e) :
    e.AcceptsText "f" .regex s 3 ↔ Admissible s ∧ s.length ≤ Operand.Site.maxPatternLength := by
  obtain ⟨hinfo, hversion⟩ := (make?_made hmake).find?_builtin .regex
  have hfree := collisionFree_validate (e := e) (textTest "f" .regex s) (.int (3 : Nat))
  have haccepts := acceptsText_iff (f := "f") hmake (.inl rfl) (by decide) (by decide) (by decide) (by decide) hinfo
    hversion hfree
  rwa [after] at haccepts

theorem admissible_abcd : Admissible "abcd" := ⟨rfl, Outcome.exists_eq_ok (by decide +kernel)⟩

end Engine
end Winnow
