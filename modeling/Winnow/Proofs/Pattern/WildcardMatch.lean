import Mathlib.Data.List.Chain
import Winnow.Matching.Evaluation
import Winnow.Proofs.Pattern.Safety
import Winnow.Proofs.Pattern.Wildcard
/-! # What wildcard texts match

`Fits` is the meaning of a wildcard text: a text is split along it. The pattern of a wildcard text matches
the texts that are split so without a newline in place of `%` or `_`, and those with one newline more at the
end. The guard finds nothing to refuse in the source of such a pattern but its length. -/

namespace Winnow.Wildcard

open Pattern

/-- Can the text be split along the wildcard text, `%` taking a run of admitted characters, `_` one of them,
and every other character itself? -/
inductive Fits (admits : Char → Prop) : List Char → List Char → Prop
  | nil : Fits admits [] []
  | run {ps cs : List Char} (taken : List Char) (h : ∀ c ∈ taken, admits c) (rest : Fits admits ps cs) :
    Fits admits ('%' :: ps) (taken ++ cs)
  | one {ps cs : List Char} {c : Char} (h : admits c) (rest : Fits admits ps cs) :
    Fits admits ('_' :: ps) (c :: cs)
  | itself {ps cs : List Char} {c : Char} (hrun : c ≠ '%') (hone : c ≠ '_') (rest : Fits admits ps cs) :
    Fits admits (c :: ps) (c :: cs)

/-- What wildcard texts are documented to mean: any character may stand for `_` and in place of `%`. -/
abbrev Splits (ps cs : List Char) : Prop := Fits (fun _ => True) ps cs

/-- What one character of a wildcard text takes. -/
def Takes (admits : Char → Prop) (p : Char) (taken : List Char) : Prop :=
  if p = '%' then ∀ c ∈ taken, admits c else if p = '_' then ∃ c, taken = [c] ∧ admits c else taken = [p]

theorem fits_nil_iff {admits : Char → Prop} {cs : List Char} : Fits admits [] cs ↔ cs = [] := by
  constructor
  · rintro ⟨⟩
    rfl
  · rintro rfl
    exact .nil

theorem fits_cons_iff {admits : Char → Prop} {p : Char} {ps cs : List Char} : Fits admits (p :: ps) cs ↔
    ∃ taken rest, cs = taken ++ rest ∧ Takes admits p taken ∧ Fits admits ps rest := by
  unfold Takes
  constructor
  · intro h
    cases h with
    | run taken h rest => exact ⟨taken, _, rfl, h, rest⟩
    | @one _ _ c h rest => exact ⟨[c], _, rfl, ⟨c, rfl, h⟩, rest⟩
    | itself hrun hone rest =>
      refine ⟨[p], _, rfl, ?_, rest⟩
      rw [if_neg hrun, if_neg hone]
  · rintro ⟨taken, rest, rfl, htakes, hfits⟩
    split at htakes
    · next hp => exact hp ▸ .run taken htakes hfits
    split at htakes
    · next hp =>
      obtain ⟨c, rfl, hc⟩ := htakes
      exact hp ▸ .one hc hfits
    · next hrun hone => exact htakes ▸ .itself hrun hone hfits

/-- No newline. -/
def InLine (c : Char) : Prop := c ≠ '\n'

/-- Is the text split along the wildcard text in one line, which a newline may end? -/
def FitsLine (ps cs : List Char) : Prop :=
  Fits InLine ps cs ∨ ∃ line, cs = line ++ ['\n'] ∧ Fits InLine ps line

variable {ps cs : List Char}

theorem Fits.mono {P Q : Char → Prop} (h : Fits P ps cs) (hPQ : ∀ c ∈ cs, P c → Q c) : Fits Q ps cs := by
  induction h with
  | nil => exact .nil
  | run taken h _ ih =>
    refine .run taken (fun c hc => hPQ c (List.mem_append_left _ hc) (h c hc)) (ih fun c hc => ?_)
    exact hPQ c (List.mem_append_right _ hc)
  | one h _ ih => exact .one (hPQ _ (List.mem_cons_self ..) h) (ih fun c hc => hPQ c (List.mem_cons_of_mem _ hc))
  | itself hrun hone _ ih => exact .itself hrun hone (ih fun c hc => hPQ c (List.mem_cons_of_mem _ hc))

theorem fitsLine_iff_of_inLine (h : '\n' ∉ cs) : FitsLine ps cs ↔ Splits ps cs := by
  have hline : ∀ c ∈ cs, InLine c := by
    rintro c hc rfl
    exact h hc
  constructor
  · rintro (hfits | ⟨line, rfl, -⟩)
    · exact hfits.mono fun _ _ _ => trivial
    · exact absurd (List.mem_append_right _ (List.mem_singleton_self _)) h
  · intro hfits
    exact .inl (hfits.mono fun c hc _ => hline c hc)

theorem FitsLine.splits (h : FitsLine ps cs) (hlast : cs.getLast? ≠ some '\n') : Splits ps cs := by
  rcases h with hfits | ⟨line, rfl, -⟩
  · exact hfits.mono fun _ _ _ => trivial
  · exact absurd List.getLast?_concat hlast

/-! ## Matchers -/

/-- The mode without flags. -/
def plainMode : Mode := ⟨false, false, false, false⟩

theorem one_isSome {p : Char → Bool} {s : Cursor} {k : Continuation} : (Pattern.one p s k).isSome = true ↔
    ∃ c rest, s.rest = c :: rest ∧ p c = true ∧ (k (s.advance 1)).isSome = true := by
  unfold Pattern.one
  rcases hs : s.rest with _ | ⟨c, rest⟩
  · simp
  · by_cases hp : p c = true <;> simp [hp, Cursor.advance, hs]

theorem advance_add (m n : Nat) (s : Cursor) : s.advance (m + n) = (s.advance m).advance n := by
  induction m generalizing s with
  | zero => simp [Cursor.advance]
  | succ m ih =>
    rw [Nat.succ_add]
    rcases hs : s.rest with _ | ⟨c, rest⟩
    · have hstay (k : Nat) : s.advance k = s := by
        cases k <;> simp [Cursor.advance, hs]
      rw [hstay, hstay, hstay]
    · simp only [Cursor.advance, hs, ih]

theorem rest_advance (n : Nat) (s : Cursor) : (s.advance n).rest = s.rest.drop n := by
  induction n generalizing s with
  | zero => rfl
  | succ n ih =>
    rcases hs : s.rest with _ | ⟨c, rest⟩
    · simp [Cursor.advance, hs]
    · simp [Cursor.advance, hs, ih]

/-- A greedy repetition of one character takes any run of them. The rounds end since each takes one
character, so the guard against empty rounds never stops them. -/
theorem rounds_isSome {p : Char → Bool} {fuel n : Nat} {last : Option Nat} {s : Cursor} {k : Continuation}
    (hfuel : s.rest.length < fuel) (hlast : last ≠ some s.position) :
    (rounds (Pattern.one p) false 0 none fuel n last s k).isSome = true ↔
      ∃ taken tail, s.rest = taken ++ tail ∧ (∀ c ∈ taken, p c = true) ∧
        (k (s.advance taken.length)).isSome = true := by
  induction fuel generalizing n last s with
  | zero => exact absurd hfuel (Nat.not_lt_zero _)
  | succ fuel ih =>
    have hstep : (rounds (Pattern.one p) false 0 none (fuel + 1) n last s k).isSome = true ↔
        (Pattern.one p s fun s' => rounds (Pattern.one p) false 0 none fuel (n + 1) (some s.position) s' k).isSome =
          true ∨ (k s).isSome = true := by
      simp [rounds, hlast]
    have hnext {c : Char} {rest : List Char} (hs : s.rest = c :: rest) :
        (rounds (Pattern.one p) false 0 none fuel (n + 1) (some s.position) (s.advance 1) k).isSome = true ↔
          ∃ taken tail, rest = taken ++ tail ∧ (∀ c ∈ taken, p c = true) ∧
            (k (s.advance (taken.length + 1))).isSome = true := by
      have hrest : (s.advance 1).rest = rest := by simp [Cursor.advance, hs]
      have hmoved : (s.advance 1).position = s.position + 1 := by simp [Cursor.advance, hs]
      have hshort : rest.length < fuel := by
        rw [hs, List.length_cons] at hfuel
        omega
      rw [ih (hrest ▸ hshort) (by simp [hmoved]), hrest]
      simp only [Nat.add_comm _ 1, advance_add]
    rw [hstep, one_isSome]
    constructor
    · rintro (⟨c, rest, hs, hc, hk⟩ | hk)
      · obtain ⟨taken, tail, rfl, htaken, hk⟩ := (hnext hs).1 hk
        exact ⟨c :: taken, tail, hs, List.forall_mem_cons.2 ⟨hc, htaken⟩, hk⟩
      · exact ⟨[], s.rest, rfl, nofun, hk⟩
    · rintro ⟨_ | ⟨c, taken⟩, tail, hs, htaken, hk⟩
      · exact .inr hk
      · obtain ⟨hc, htaken⟩ := List.forall_mem_cons.1 htaken
        exact .inl ⟨c, taken ++ tail, hs, hc, (hnext hs).2 ⟨taken, tail, rfl, htaken, hk⟩⟩

/-! ## Trees of wildcard texts -/

theorem literal_isSome {c : Char} {s : Cursor} {k : Continuation} :
    ((Tree.literal plainMode c.toNat).run s k).isSome = true ↔
      ∃ rest, s.rest = c :: rest ∧ (k (s.advance 1)).isSome = true := by
  rw [Tree.run, one_isSome]
  simp only [plainMode, Mode.variants, Mode.lower, Bool.not_false, if_true, Bool.false_and, Bool.false_eq_true,
    if_false, List.contains_cons, List.contains_nil, Bool.or_false, beq_iff_eq, Char.toNat_inj]
  constructor
  · rintro ⟨d, rest, hs, rfl, hk⟩
    exact ⟨rest, hs, hk⟩
  · rintro ⟨rest, hs, hk⟩
    exact ⟨c, rest, hs, rfl, hk⟩

theorem any_isSome {s : Cursor} {k : Continuation} : ((Tree.any plainMode).run s k).isSome = true ↔
    ∃ c rest, s.rest = c :: rest ∧ InLine c ∧ (k (s.advance 1)).isSome = true := by
  rw [Tree.run, one_isSome]
  simp [plainMode, InLine]

theorem star_isSome {s : Cursor} {k : Continuation} :
    ((Tree.repeated (.any plainMode) 0 none .greedy).run s k).isSome = true ↔
      ∃ taken tail, s.rest = taken ++ tail ∧ (∀ c ∈ taken, InLine c) ∧
        (k (s.advance taken.length)).isSome = true := by
  have hrun : (Tree.repeated (.any plainMode) 0 none .greedy).run s k =
      rounds (Pattern.one fun c => plainMode.dotAll || c != '\n') false 0 none (0 + s.rest.length + 2) 0 none s k := rfl
  rw [hrun, rounds_isSome (by omega) (by simp)]
  simp [plainMode, InLine]

theorem charTree_isSome {p : Char} {s : Cursor} {k : Continuation} :
    ((charTree plainMode p).run s k).isSome = true ↔
      ∃ taken tail, s.rest = taken ++ tail ∧ Takes InLine p taken ∧ (k (s.advance taken.length)).isSome = true := by
  unfold charTree Takes
  split
  · exact star_isSome
  split
  · rw [any_isSome]
    constructor
    · rintro ⟨c, rest, hs, hc, hk⟩
      exact ⟨[c], rest, hs, ⟨c, rfl, hc⟩, hk⟩
    · rintro ⟨_, tail, hs, ⟨c, rfl, hc⟩, hk⟩
      exact ⟨c, tail, hs, hc, hk⟩
  · rw [literal_isSome]
    constructor
    · rintro ⟨rest, hs, hk⟩
      exact ⟨[p], rest, hs, rfl, hk⟩
    · rintro ⟨_, tail, hs, rfl, hk⟩
      exact ⟨tail, hs, hk⟩

/-- The trees of a text's characters take what is split along it, and hand on what is left. -/
theorem inOrder_isSome {ps : List Char} {ts : List Tree} {s : Cursor} {k : Continuation} :
    (Tree.run.inOrder (ps.map (charTree plainMode) ++ ts) s k).isSome = true ↔
      ∃ cs tail, s.rest = cs ++ tail ∧ Fits InLine ps cs ∧
        (Tree.run.inOrder ts (s.advance cs.length) k).isSome = true := by
  induction ps generalizing s with
  | nil =>
    simp only [List.map_nil, List.nil_append, fits_nil_iff]
    constructor
    · intro h
      exact ⟨[], s.rest, rfl, rfl, h⟩
    · rintro ⟨_, tail, -, rfl, h⟩
      exact h
  | cons p ps ih =>
    simp only [List.map_cons, List.cons_append, Tree.run.inOrder, charTree_isSome, ih, fits_cons_iff, rest_advance]
    constructor
    · rintro ⟨taken, _, hs, htakes, cs, tail, hrest, hfits, hk⟩
      rw [hs, List.drop_left] at hrest
      refine ⟨taken ++ cs, tail, by rw [hs, hrest, List.append_assoc], ⟨taken, cs, rfl, htakes, hfits⟩, ?_⟩
      rwa [List.length_append, advance_add]
    · rintro ⟨_, tail, hs, ⟨taken, cs, rfl, htakes, hfits⟩, hk⟩
      rw [List.append_assoc] at hs
      refine ⟨taken, cs ++ tail, hs, htakes, cs, tail, by rw [hs, List.drop_left], hfits, ?_⟩
      rwa [List.length_append, advance_add] at hk

/-- The pattern of a wildcard text matches in one line, up to a newline at the end. -/
theorem matchesStart_iff {p : Program} {ps : List Char} (hp : p.tree = tree plainMode ps) (text : String) :
    p.matchesStart text = true ↔ FitsLine ps text.toList := by
  have hend (s : Cursor) : (Tree.run.inOrder [.anchor plainMode .lineEnd] s some).isSome = true ↔
      s.rest = [] ∨ s.rest = ['\n'] := by
    rcases hs : s.rest with _ | ⟨c, _ | ⟨d, rest⟩⟩ <;>
      simp [Tree.run.inOrder, Tree.run, Anchor.holds, plainMode, hs]
  have hstart : p.tree.run (Program.start text) some =
      Tree.run.inOrder (ps.map (charTree plainMode) ++ [.anchor plainMode .lineEnd]) (Program.start text) some := by
    rw [hp]
    rfl
  rw [Program.matchesStart, hstart, inOrder_isSome]
  simp only [hend, rest_advance, FitsLine]
  constructor
  · rintro ⟨cs, tail, hs, hfits, htail⟩
    rw [hs, List.drop_left] at htail
    have htext : text.toList = cs ++ tail := hs
    rcases htail with rfl | rfl
    · exact .inl (by rwa [htext, List.append_nil])
    · exact .inr ⟨cs, htext, hfits⟩
  · rintro (hfits | ⟨line, htext, hfits⟩)
    · exact ⟨text.toList, [], (List.append_nil _).symm, hfits, .inl (by simp [Program.start])⟩
    · exact ⟨line, ['\n'], htext, hfits, .inr (by simp [Program.start, htext])⟩

/-! ## The guard -/

/-- A bracket or brace that closes something comes right behind a backslash only. -/
abbrev Escaped (cs : List Char) : Prop := cs.IsChain fun c d => d = ')' ∨ d = '\x7d' → c = '\\'

theorem escaped_source (c : Char) (ps : List Char) : Escaped (c :: (ps.flatMap charSource ++ ['$'])) := by
  have hplain {c d : Char} (hd : ¬(d = ')' ∨ d = '\x7d') := by decide) : d = ')' ∨ d = '\x7d' → c = '\\' :=
    fun h => absurd h hd
  induction ps generalizing c with
  | nil => exact .cons_cons hplain (.singleton _)
  | cons p ps ih =>
    rw [List.flatMap_cons, List.append_assoc]
    unfold charSource escapeSpecial
    split
    · exact .cons_cons hplain (.cons_cons hplain (ih '*'))
    split
    · exact .cons_cons hplain (ih '.')
    split
    · exact .cons_cons hplain (.cons_cons (fun _ => rfl) (ih p))
    · next hp =>
      refine .cons_cons (hplain ?_) (ih p)
      rintro (rfl | rfl) <;> exact hp (by decide)

/-- The end of a group would follow a quantifier directly, and is escaped. -/
theorem Escaped.hasNested_eq_false {cs : List Char} (h : Escaped cs) : Safety.hasNested cs = false := by
  by_contra hnested
  obtain ⟨before, _, hwithin, rfl⟩ := Safety.hasNested_iff.1 (Bool.eq_true_of_not_eq_false hnested)
  obtain ⟨body, _, -, hends, rfl⟩ := Safety.nestedWithin_iff.1 hwithin
  obtain ⟨inner, outer, after, hinner, -, rfl⟩ := Safety.endsNested_iff.1 hends
  obtain ⟨start, c, rfl, hc⟩ := hinner.exists_last
  have hsuffix : Escaped (c :: ')' :: (outer ++ after)) := h.suffix ⟨before ++ '(' :: (body ++ start), by simp⟩
  obtain rfl := (List.isChain_cons_cons.1 hsuffix).1 (.inl rfl)
  rcases hc with hc | hc | hc <;> cases hc

/-- The only hazard of the source of a wildcard text is its length. -/
theorem hazard?_patternSource (s : String) (limit : Int) : hazard? (patternSource s) limit =
    if limit < (patternSource s).length then some (.tooLong limit) else none := by
  have hsource : (patternSource s).toList = '^' :: (s.toList.flatMap charSource ++ ['$']) := by
    simp [patternSource]
  have hescaped : Escaped (patternSource s).toList := hsource ▸ escaped_source '^' s.toList
  rw [hazard?, hescaped.hasNested_eq_false]
  rfl

/-- A wildcard text is compiled unless its source is too long. -/
theorem compileAnswer_patternSource (s : String) (limit : Int) :
    compileAnswer limit (patternSource s) 0 = .ok (if limit < (patternSource s).length then none
      else some ⟨⟨patternSource s, Pattern.unicode⟩, tree plainMode s.toList⟩) := by
  have hcompile : compile (patternSource s) 0 = .ok ⟨⟨patternSource s, Pattern.unicode⟩, tree plainMode s.toList⟩ :=
    compile_patternSource s (.inl rfl)
  rw [compileAnswer, compileSource, hazard?_patternSource]
  by_cases hlong : limit < (patternSource s).length
  · rw [if_pos hlong, if_pos hlong]
    rfl
  · rw [if_neg hlong, if_neg hlong, hcompile]
    rfl

end Winnow.Wildcard
