import Winnow.Proofs.Expression.Plain
import Winnow.Proofs.Memo.PatternHistory
import Winnow.Proofs.Pattern.Nesting
/-! # Texts that pass as patterns

A text that is searched for is looked at by the check of operands and, once more, when it is compiled. Either
asks the guard first, with a limit on the length, and then reads the text as a pattern. So a pattern in which
repetitions nest, and that is not too long, is refused by both just when some group of it is written plainly. -/

namespace Winnow

open Outcome Safety

variable {s : String} {limit : Int}

/-- Would the text be a pattern, were there no limit on its length? -/
structure Admissible (s : String) : Prop where
  flat : Safety.hasNested s.toList = false
  compiles : ∃ p, Pattern.compile s 0 = .ok p

theorem hazard?_eq_none_iff : hazard? s limit = none ↔ s.length ≤ limit ∧ Safety.hasNested s.toList = false := by
  unfold hazard?
  by_cases hlong : limit < s.length
  · rw [if_pos hlong]
    simp [Int.not_le.2 hlong]
  · rw [if_neg hlong]
    by_cases hnested : Safety.hasNested s.toList
    · simp [hnested]
    · simp [hnested, Int.not_lt.1 hlong]

theorem compiles_iff_of_sameButCase {flags flags' : Int} (h : Pattern.SameButCase flags flags') :
    (∃ p, Pattern.compile s flags = .ok p) ↔ ∃ p, Pattern.compile s flags' = .ok p := by
  have herror {e : Pattern.ParseError} := Pattern.compile_error_iff s h (e := e)
  constructor
  · rintro ⟨p, hp⟩
    rcases hq : Pattern.compile s flags' with e | q
    · rw [herror.2 hq] at hp
      cases hp
    · exact ⟨q, rfl⟩
  · rintro ⟨q, hq⟩
    rcases hp : Pattern.compile s flags with e | p
    · rw [herror.1 hp] at hq
      cases hq
    · exact ⟨p, rfl⟩

/-- A store compiles the admissible texts within its limit, whether case matters or not. -/
theorem compileSource_ok_iff (terms : Terms) :
    (∃ p, compileSource limit s terms.patternFlags = .ok (.ok p)) ↔ Admissible s ∧ s.length ≤ limit := by
  simp only [compileSource_eq_ok, exists_and_left, hazard?_eq_none_iff]
  rw [← compiles_iff_of_sameButCase terms.sameButCase_patternFlags]
  constructor
  · rintro ⟨⟨hlength, hflat⟩, hcompiles⟩
    exact ⟨⟨hflat, hcompiles⟩, hlength⟩
  · rintro ⟨⟨hflat, hcompiles⟩, hlength⟩
    exact ⟨⟨hlength, hflat⟩, hcompiles⟩

theorem Operand.Site.length_le_maxPatternLength : (s.length : Int) ≤ maxPatternLength ↔ s.length ≤ 1000 := by
  rw [maxPatternLength]
  omega

/-- A check of operands accepts the admissible texts within a limit of its own. -/
theorem Operand.Site.pattern_eq_ok {path : String} {o : Operand} : pattern ⟨.text s, path⟩ = .ok o ↔
    (Admissible s ∧ s.length ≤ maxPatternLength) ∧ o = .value (.text s) := by
  unfold pattern Pattern.make?
  simp only
  rcases hhazard : hazard? s maxPatternLength with _ | hazard
  · obtain ⟨hlength, hflat⟩ := hazard?_eq_none_iff.1 hhazard
    rcases hcompile : Pattern.compile s 0 with e | p
    · have hnot : ¬Admissible s := by
        rintro ⟨-, p, hp⟩
        rw [hcompile] at hp
        cases hp
      cases e <;> simp [hnot, reject]
    · have hadmissible : Admissible s := ⟨hflat, p, hcompile⟩
      simp [hadmissible, hlength, eq_comm]
  · have hnot : ¬(Admissible s ∧ s.length ≤ maxPatternLength) := by
      rintro ⟨hadmissible, hlength⟩
      rw [hazard?_eq_none_iff.2 ⟨hlength, hadmissible.flat⟩] at hhazard
      cases hhazard
    simp [hnot, reject]

/-! ## Nested repetitions -/

theorem exists_hazard_iff : (∃ h, hazard? s limit = some h) ↔ limit < s.length ∨ PlainlyNested s := by
  rw [← Option.isSome_iff_exists, ← Option.ne_none_iff_isSome, Ne, hazard?_eq_none_iff,
    ← hasNested_iff_plainlyNested, not_and_or, Int.not_le, Bool.not_eq_false]

/-- A pattern is admissible when the guard finds nothing in it. -/
theorem admissible_iff {p : Pattern.Parsed} (hp : Pattern.parse s 0 = .ok p) :
    Admissible s ↔ ¬PlainlyNested s := by
  have hcompile : ∃ q, Pattern.compile s 0 = .ok q := ⟨_, by rw [Pattern.compile, hp]⟩
  rw [← hasNested_iff_plainlyNested, Bool.not_eq_true]
  exact ⟨fun h => h.flat, fun hflat => ⟨hflat, hcompile⟩⟩

/-- A pattern in which repetitions nest is written with nested quantifiers. Unless it is too long, the guard
refuses it, and with the guard both gates do, just when a group of it is written plainly. -/
theorem nested_refused_iff {p : Pattern.Parsed} (hp : Pattern.parse s 0 = .ok p) (hn : p.tree.nests = true) :
    Pattern.Nested s.toList ∧
    (∀ limit : Int, (∃ h, hazard? s limit = some h) ↔ limit < s.length ∨ PlainlyNested s) ∧
    (∀ path, (∃ o, Operand.Site.pattern ⟨.text s, path⟩ = .ok o) ↔ s.length ≤ 1000 ∧ ¬PlainlyNested s) ∧
    ∀ (limit : Int) (terms : Terms), (∃ c, compileSource limit s terms.patternFlags = .ok (.ok c)) ↔
      s.length ≤ limit ∧ ¬PlainlyNested s := by
  refine ⟨Pattern.nested_of_parse hp hn, fun limit => exists_hazard_iff, fun path => ?_, fun limit terms => ?_⟩
  · simp only [Operand.Site.pattern_eq_ok, Operand.Site.length_le_maxPatternLength, exists_and_left, exists_eq,
      and_true, admissible_iff hp]
    exact and_comm
  · rw [compileSource_ok_iff, admissible_iff hp]
    exact and_comm

theorem plainlyNested_plus : PlainlyNested "(a+)+" :=
  ⟨⟨[], ['a'], ['+'], [], [], ['+'], []⟩,
    ⟨.char (by decide) (by decide) (by decide) .nil, .plus, rfl, rfl, .plus⟩, rfl⟩

theorem exists_nests_of_eq (h : (Pattern.parse s 0).toOption.any (·.tree.nests) = true) :
    ∃ p, Pattern.parse s 0 = .ok p ∧ p.tree.nests = true := by
  rcases hp : Pattern.parse s 0 with e | p
  · rw [hp] at h
    cases h
  · rw [hp] at h
    exact ⟨p, rfl, h⟩

theorem nested_refused_iff_plus : ∃ p, Pattern.parse "(a+)+" 0 = .ok p ∧ p.tree.nests = true ∧
    (∃ h, hazard? "(a+)+" 1000 = some h) ∧
    (¬∃ o, Operand.Site.pattern ⟨.text "(a+)+", "f"⟩ = .ok o) ∧
    ∀ terms : Terms, ¬∃ c, compileSource 1000 "(a+)+" terms.patternFlags = .ok (.ok c) := by
  obtain ⟨p, hp, hn⟩ := exists_nests_of_eq (s := "(a+)+") (by decide +kernel)
  obtain ⟨-, hguard, hcheck, hcompile⟩ := nested_refused_iff hp hn
  refine ⟨p, hp, hn, (hguard 1000).2 (.inr plainlyNested_plus), fun h => ?_, fun terms h => ?_⟩
  · exact ((hcheck "f").1 h).2 plainlyNested_plus
  · exact ((hcompile 1000 terms).1 h).2 plainlyNested_plus

/-- With another group in it, the outer group of nested quantifiers is not found. -/
theorem nested_not_refused : (∃ p, Pattern.parse "((a)b+)+" 0 = .ok p ∧ p.tree.nests = true) ∧
    hazard? "((a)b+)+" 1000 = none ∧ (∃ o, Operand.Site.pattern ⟨.text "((a)b+)+", "f"⟩ = .ok o) ∧
    ∃ c, compileSource 1000 "((a)b+)+" 0 = .ok (.ok c) := by
  obtain ⟨p, hp, hn⟩ := exists_nests_of_eq (s := "((a)b+)+") (by decide +kernel)
  have hadmissible : Admissible "((a)b+)+" := ⟨by decide, _, by rw [Pattern.compile, hp]⟩
  have hnone : hazard? "((a)b+)+" 1000 = none := hazard?_eq_none_iff.2 ⟨by decide, hadmissible.flat⟩
  obtain ⟨c, hc⟩ := hadmissible.compiles
  refine ⟨⟨p, hp, hn⟩, hnone, ?_, c, compileSource_eq_ok.2 ⟨hnone, hc⟩⟩
  exact ⟨_, Operand.Site.pattern_eq_ok.2 ⟨⟨hadmissible, by decide⟩, rfl⟩⟩

end Winnow
