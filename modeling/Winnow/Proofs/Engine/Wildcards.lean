import Winnow.Proofs.Engine.Agreement
import Winnow.Proofs.Expression.Entries
import Winnow.Proofs.Matching.Totality
import Winnow.Proofs.Pattern.WildcardMatch
/-! # Wildcard texts in expressions

On every engine that can come about, whatever patterns it keeps, a condition that is a wildcard text comes
to whether the value is split along it in one line. That is what wildcards are documented to mean, but for
newlines and for texts whose pattern is too long. -/

namespace Winnow.Engine

open Wildcard Request

variable {e e₀ : Engine} {o : Options} {t : Table} {shared : Bool} {environment : Environment} {now : Moment}

/-- The text of a wildcard with its negation. -/
def negated (p : String) : String := "!" ++ p

theorem parse_unnegated {p : String} (hn : isNegated p = false) : Literal.parse (.text p) = .ofText p p false := by
  have hself : withoutNegation p = p := by
    unfold withoutNegation
    split
    · next rest heq => simp [isNegated, heq] at hn
    · rfl
  rw [Literal.parse, hself, hn]

theorem parse_negated (p : String) : Literal.parse (.text (negated p)) = .ofText (negated p) p true := by
  have hchars : (negated p).toList = '!' :: p.toList := by simp [negated]
  have hrest : withoutNegation (negated p) = p := by simp [withoutNegation, hchars]
  have hmark : isNegated (negated p) = true := by simp [isNegated, hchars]
  rw [Literal.parse, hrest, hmark]

theorem ofText_wildcard {p : String} (hp : occurs p = true) (raw : String) (isNegation : Bool) :
    Literal.ofText raw p isNegation = ⟨.text raw, .text p, isNegation, some (patternSource p)⟩ := by
  rw [Literal.ofText, if_pos hp]

/-- A field whose value is a text. -/
theorem check_textQuery {f : String} (hf : isOperatorKey (.text f) = false) {depth : Nat} (hdepth : 1 ≤ depth)
    (hdepth' : depth ≤ 10) (s : String) :
    e.check (.ofPairs [(f, .text s)]) (.int depth) = .ok (.field f (.literal (.parse (.text s)))) := by
  rw [check, validate_int hdepth hdepth', Grammar.check_field hf]
  exact ⟨hdepth, _, rfl, rfl⟩

/-- A wildcard is asked for and answered, unless its pattern is too long. -/
theorem hitsLiteral_wildcard {terms : Terms} (hcase : terms.caseSensitive = true) {l : Literal} {p : String}
    (hl : l.wildcard = some (patternSource p)) (limit : Int) (s : String) :
    ∃ b, (terms.hitsLiteral l (.text s)).run (compileAnswer limit) = .ok b ∧
      (b = true ↔ (patternSource p).length ≤ limit ∧ FitsLine p.toList s.toList) := by
  have hflags : terms.patternFlags = 0 := by simp [Terms.patternFlags, hcase]
  rw [Terms.hitsLiteral, hl]
  simp only [Evaluation.run, hflags, Nat.cast_zero, compileAnswer_patternSource]
  by_cases hlong : limit < (patternSource p).length
  · rw [if_pos hlong]
    refine ⟨false, rfl, ?_⟩
    simp only [Bool.false_eq_true, false_iff, not_and]
    omega
  · rw [if_neg hlong]
    refine ⟨_, rfl, ?_⟩
    simp only [Value.items?, Option.getD_none, List.any_nil, Bool.or_false, Option.any_some, Int.not_lt.1 hlong,
      true_and]
    exact matchesStart_iff rfl s

/-! ## The limit of an engine -/

theorem onTable_maxLength (f : Table → Outcome (Unit × Table)) :
    (Request.onTable f e).2.patterns.maxLength = e.patterns.maxLength := by
  unfold Request.onTable
  split <;> rfl

theorem Usable.maxLength_next (h : e.Usable) (s : Step) :
    (s.next e).patterns.maxLength = e.patterns.maxLength := by
  cases s with
  | validate x depth => exact (validate_roomy x depth e h.fits).1.maxLength
  | filter d q => exact (filter_fits (keepsTrees_roomy q) e h.fits).1.maxLength
  | filterTraced d q =>
    have htraced : Keeps (Fits e Roomy) (filterTraced d q) :=
      (prepare_fits (keepsTrees_roomy q)).bind fun _ => runTraced_fits
    exact (htraced e h.fits).1.maxLength
  | clear => rfl
  | register o overwrite => exact onTable_maxLength _
  | unregister name => exact onTable_maxLength _

/-- No step, call or cursor changes how long patterns may be. -/
theorem Reached.maxLength {settings : Settings} (hmake : Engine.make? settings t shared environment now = .ok e₀)
    (h : e₀.Reached e) : e.patterns.maxLength = e₀.patterns.maxLength := by
  induction h with
  | start => rfl
  | step s hreached ih => exact ((hreached.usable hmake).maxLength_next s).trans ih
  | call c hreached ih => exact (c.next_fits (keepsTrees_roomy _) (hreached.usable hmake).fits).maxLength.trans ih
  | read c count records hreached ih =>
    exact (cursor_next_fits c (hreached.usable hmake).fits).maxLength.trans ih

/-! ## Conditions that are wildcards -/

theorem passes_literal {f : String} {l : Literal} {record actual : Value}
    (hrecord : Path.resolve record (Path.segments f) = actual) :
    e.passes o (.field f (.literal l)) record =
      ((o.terms e.now e.environment.functions).matchesLiteral l actual).run (compileAnswer e.patterns.maxLength) := by
  rw [passes, Node.matches, Condition.holds, hrecord]

/-- A wildcard text and its negation as conditions on a field whose value is a text. -/
theorem passes_wildcard (ho : o.caseSensitive = true) {f p s : String} (hp : occurs p = true)
    (hn : isNegated p = false) {record : Value} (hrecord : Path.resolve record (Path.segments f) = .text s) :
    ∃ b, e.passes o (.field f (.literal (.parse (.text p)))) record = .ok b ∧
      e.passes o (.field f (.literal (.parse (.text (negated p))))) record = .ok !b ∧
      (b = true ↔ (patternSource p).length ≤ e.patterns.maxLength ∧ FitsLine p.toList s.toList) := by
  have hcase : (o.terms e.now e.environment.functions).caseSensitive = true := ho
  have hits {l : Literal} (hl : l.wildcard = some (patternSource p)) :=
    hitsLiteral_wildcard hcase hl e.patterns.maxLength s
  obtain ⟨b, hb, hiff⟩ := hits (l := ⟨.text p, .text p, false, some (patternSource p)⟩) rfl
  obtain ⟨b', hb', hiff'⟩ := hits (l := ⟨.text (negated p), .text p, true, some (patternSource p)⟩) rfl
  obtain rfl : b' = b := Bool.eq_iff_iff.2 (hiff'.trans hiff.symm)
  refine ⟨b', ?_, ?_, hiff⟩
  · rw [passes_literal hrecord, parse_unnegated hn, ofText_wildcard hp, Terms.matchesLiteral, if_neg Bool.false_ne_true, hb]
  · rw [passes_literal hrecord, parse_negated, ofText_wildcard hp, Terms.matchesLiteral, if_pos rfl, Evaluation.run_negation, hb',
      Outcome.map_ok]

/-- On a standard engine a wildcard text matches just the texts that are split along it in one line, as long as
its pattern is within the limit, and its negation the others. -/
theorem wildcard_iff_fitsLine (hmake : Engine.make? Settings.standard t shared environment now = .ok e₀)
    (hreached : e₀.Reached e) (ho : o.caseSensitive = true) {f p s : String}
    (hf : isOperatorKey (.text f) = false) (hp : occurs p = true) (hn : isNegated p = false) {depth : Nat}
    (hdepth : 1 ≤ depth) (hdepth' : depth ≤ 10) {record : Value}
    (hrecord : Path.resolve record (Path.segments f) = .text s) :
    ∃ node node' b, e.check (.ofPairs [(f, .text p)]) (.int depth) = .ok node ∧
      e.check (.ofPairs [(f, .text (negated p))]) (.int depth) = .ok node' ∧
      (e.test o node e.patterns record).1 = .ok b ∧ (e.test o node' e.patterns record).1 = .ok !b ∧
      (b = true ↔ (patternSource p).length ≤ 1000 ∧ FitsLine p.toList s.toList) := by
  have hlimit : e.patterns.maxLength = 1000 :=
    (hreached.maxLength hmake).trans (Except.ok.inj (make?_made hmake).maxLength.symm)
  have hpatterns := (hreached.usable hmake).patterns
  obtain ⟨b, hb, hb', hiff⟩ := e.passes_wildcard ho hp hn hrecord
  refine ⟨_, _, b, check_textQuery hf hdepth hdepth' p, check_textQuery hf hdepth hdepth' (negated p), ?_, ?_, ?_⟩
  · exact (hpatterns.runState _).1.trans hb
  · exact (hpatterns.runState _).1.trans hb'
  · exact_mod_cast hlimit ▸ hiff

/-- A record with a text. -/
def textRecord (s : String) : Value := .ofPairs [("f", .text s)]

theorem resolve_textRecord (s : String) : Path.resolve (textRecord s) (Path.segments "f") = .text s := rfl

/-- A text of so many characters. -/
def repeated (c : Char) (n : Nat) : String := String.ofList (List.replicate n c)

section Repeated

variable (c : Char) (n : Nat)

theorem toList_repeated : (repeated c n).toList = List.replicate n c := String.toList_ofList

theorem splits_repeated : Splits (repeated '_' n).toList (repeated c n).toList := by
  rw [toList_repeated, toList_repeated]
  induction n with
  | zero => exact .nil
  | succ n ih => exact .one trivial ih

theorem length_patternSource_repeated : (patternSource (repeated '_' n)).length = n + 2 := by
  simp only [patternSource, toList_repeated, List.flatMap_replicate, charSource, ← String.length_toList,
    String.toList_ofList]
  simp

theorem occurs_repeated : occurs (repeated '_' (n + 1)) = true := by
  rw [occurs, toList_repeated]
  rfl

theorem isNegated_repeated : isNegated (repeated '_' (n + 1)) = false := by
  rw [isNegated, toList_repeated]
  rfl

end Repeated

end Winnow.Engine
