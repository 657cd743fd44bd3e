import Winnow.Pattern.Match
import Winnow.Pattern.Wildcard
import Winnow.Proofs.Outcome
import Winnow.Proofs.Pattern.Flags
/-! # Wildcard texts are patterns

The pattern source of a wildcard text is well formed, whatever the text. Its tree follows the text
character by character. -/

namespace Winnow.Pattern

/-! ## Single steps of a reader -/

namespace Parser

variable {r : Reader} {c : Char} {rest : List Char}

theorem peek_run (h : r.rest = rest) : peek.run r = .ok (rest.head?, r) := by
  subst h
  rfl

theorem next_run (h : r.rest = c :: rest) : next.run r = .ok (c, { r with rest }) := by
  obtain ⟨_, _, _, _, _, _, _⟩ := r
  subst h
  rfl

/-- Another character than the one that comes next is not taken. -/
theorem accept_run_of_ne {d : Char} (h : r.rest.head? ≠ some d) : (accept d).run r = .ok (false, r) := by
  obtain ⟨_ | ⟨c, cs⟩, _, _, _, _, _, _⟩ := r
  · rfl
  · have hne : ¬d = c := fun h' => h (h' ▸ rfl)
    show (if d = c then _ else _ : Parser Bool).run _ = _
    rw [if_neg hne]
    rfl

end Parser

end Winnow.Pattern

namespace Winnow.Wildcard

open Pattern Pattern.Parser

/-- What one wildcard character stands for. -/
def charTree (mode : Mode) (c : Char) : Tree :=
  if c = '%' then .repeated (.any mode) 0 none .greedy
  else if c = '_' then .any mode
  else .literal mode c.toNat

/-- What a wildcard text stands for. -/
def tree (mode : Mode) (cs : List Char) : Tree :=
  .sequence (.anchor mode .lineStart :: cs.map (charTree mode) ++ [.anchor mode .lineEnd])

/-- Special characters are not the letters and digits of escapes. -/
theorem isSpecial_spec {c : Char} (hc : isSpecial c = true) :
    (position? c = none ∧ category? c = none ∧ (control? c = none ∨ control? c = some c.toNat)) ∧
      c.isDigit = false ∧ c.isAlpha = false ∧ c ≠ 'x' ∧ c ≠ 'u' ∧ c ≠ 'U' := by
  have hall : "()[]\x7b\x7d?*+-|^$\\.&~# \t\n\r\x0b\x0c".toList.all fun c =>
      (position? c = none ∧ category? c = none ∧ (control? c = none ∨ control? c = some c.toNat)) ∧
        c.isDigit = false ∧ c.isAlpha = false ∧ c ≠ 'x' ∧ c ≠ 'u' ∧ c ≠ 'U' := by decide
  exact of_decide_eq_true (List.all_eq_true.1 hall c (by simpa [isSpecial] using hc))

/-- An escaped special character stands for itself. -/
theorem escape_run (mode : Mode) {c : Char} (hc : isSpecial c = true) (r : Reader) (rest : List Char) :
    (escape mode).run { r with rest := c :: rest } = .ok (.literal mode c.toNat, { r with rest }) := by
  obtain ⟨⟨hposition, hcategory, hcontrol⟩, hdigit, halpha, hx, hu, hU⟩ := isSpecial_spec hc
  rw [escape, StateT.run_bind, next_run rfl, Outcome.ok_bind]
  dsimp only
  rw [hposition, hcategory]
  rcases hcontrol with hcontrol | hcontrol
  · rw [hcontrol]
    have hcode : codeEscape? c = pure none := by
      unfold codeEscape?
      split <;> first | rfl | contradiction
    simp only [hdigit, hcode, escapedSelf, halpha, Bool.false_eq_true, if_false]
    rfl
  · rw [hcontrol]
    rfl

/-- Characters that do more than stand for one item. -/
def isStructural (c : Char) : Bool := "|)*+?\x7b(".toList.contains c

theorem isStructural_eq_false {c : Char} (hc : isSpecial c = false) : isStructural c = false := by
  have hall : "|)*+?\x7b(".toList.all isSpecial := by decide
  by_contra h
  rw [List.all_eq_true.1 hall c (by simpa [isStructural, or_iff_not_imp_left] using h)] at hc
  cases hc

variable {fuel : Nat} {flags : Int} {atStart : Bool} {found : List Tree} {r : Reader} {c : Char}
    {rest : List Char}

/-- A character that stands for one item, outside verbose sources. -/
theorem items_run (hverbose : hasFlag flags Pattern.verbose = false) (hc : isStructural c = false)
    (h : r.rest = c :: rest) :
    (items (fuel + 1) flags atStart found).run r =
      ((simpleItem (Mode.ofFlags flags) c).run { r with rest } >>= fun t =>
        (items fuel flags atStart (t.1 :: found)).run t.2) := by
  have hne {d : Char} (hd : isStructural d = true) : ¬c = d := by
    rintro rfl
    rw [hc] at hd
    cases hd
  rw [items, StateT.run_bind, peek_run h, Outcome.ok_bind]
  dsimp only [List.head?_cons]
  split
  · next heq => cases heq
  · next heq => exact absurd (Option.some.inj heq) (hne (by decide))
  · next heq => exact absurd (Option.some.inj heq) (hne (by decide))
  · rw [StateT.run_bind, next_run h, Outcome.ok_bind]
    simp only [hverbose, Bool.false_eq_true, false_and, if_false,
      hne (show isStructural '*' = true by decide),
      hne (show isStructural '+' = true by decide), hne (show isStructural '?' = true by decide),
      hne (show isStructural '\x7b' = true by decide),
      hne (show isStructural '(' = true by decide), StateT.run_bind]

/-- A character that is an item by itself. -/
theorem items_run_pure (hverbose : hasFlag flags Pattern.verbose = false) (hc : isStructural c = false)
    {t : Tree} (ht : simpleItem (Mode.ofFlags flags) c = pure t) (h : r.rest = c :: rest) :
    (items (fuel + 1) flags atStart found).run r =
      (items fuel flags atStart (t :: found)).run { r with rest } := by
  rw [items_run hverbose hc h, ht]
  rfl

/-- A star after an item that may be repeated, when nothing follows that changes its kind. -/
theorem items_run_star (hverbose : hasFlag flags Pattern.verbose = false) (mode : Mode)
    (h : r.rest = '*' :: rest) (hlazy : rest.head? ≠ some '?') (hpossessive : rest.head? ≠ some '+') :
    (items (fuel + 1) flags atStart (.any mode :: found)).run r =
      (items fuel flags atStart (.repeated (.any mode) 0 none .greedy :: found)).run { r with rest } := by
  rw [items, StateT.run_bind, peek_run h, Outcome.ok_bind]
  dsimp only [List.head?_cons]
  have hrepeat : (repeatLast (.any mode :: found) 0 none).run { r with rest } =
      .ok (.repeated (.any mode) 0 none .greedy :: found, { r with rest }) := by
    simp only [repeatLast, StateT.run_bind]
    rw [accept_run_of_ne hlazy, Outcome.ok_bind]
    simp only [Bool.false_eq_true, if_false, StateT.run_bind]
    rw [accept_run_of_ne hpossessive, Outcome.ok_bind]
    rfl
  split
  · next heq => cases heq
  · next heq => exact absurd heq (by decide)
  · next heq => exact absurd heq (by decide)
  · rw [StateT.run_bind, next_run h, Outcome.ok_bind]
    simp only [hverbose, Bool.false_eq_true, false_and, if_false, if_true, StateT.run_bind, hrepeat,
      Outcome.ok_bind]

/-- No other special character than these comes first in the source of a text. -/
theorem head_source_ne {d : Char} (hd : isSpecial d = true) (hdot : d ≠ '.') (hescape : d ≠ '\\')
    (hend : d ≠ '$') (cs : List Char) : (cs.flatMap charSource ++ ['$']).head? ≠ some d := by
  cases cs with
  | nil => simpa using hend.symm
  | cons c cs =>
    rw [List.flatMap_cons, List.append_assoc]
    unfold charSource escapeSpecial
    split
    · simpa using hdot.symm
    split
    · simpa using hdot.symm
    split
    · simpa using hescape.symm
    · next hc =>
      rintro heq
      obtain rfl : c = d := by simpa using heq
      exact hc hd

/-- One character of a text is one item. -/
theorem items_run_charSource (hverbose : hasFlag flags Pattern.verbose = false) (c : Char) {cs : List Char}
    (h : r.rest = charSource c ++ (cs.flatMap charSource ++ ['$'])) :
    ∃ used, used ≤ 2 ∧ ∀ fuel atStart found, (items (fuel + used) flags atStart found).run r =
      (items fuel flags atStart (charTree (Mode.ofFlags flags) c :: found)).run
        { r with rest := cs.flatMap charSource ++ ['$'] } := by
  rw [charSource, escapeSpecial] at h
  unfold charTree
  split at h
  · next hc =>
    refine ⟨2, le_rfl, fun fuel atStart found => ?_⟩
    rw [if_pos hc, items_run_pure hverbose (by decide) rfl h]
    refine items_run_star hverbose _ ?_ ?_ ?_
    · rfl
    · exact head_source_ne (by decide) (by decide) (by decide) (by decide) cs
    · exact head_source_ne (by decide) (by decide) (by decide) (by decide) cs
  rw [if_neg (by assumption)]
  split at h
  · next hc =>
    rw [if_pos hc]
    exact ⟨1, by decide, fun fuel atStart found => items_run_pure hverbose (by decide) rfl h⟩
  rw [if_neg (by assumption)]
  refine ⟨1, by decide, fun fuel atStart found => ?_⟩
  split at h
  · next hc =>
    rw [items_run hverbose (by decide) h]
    exact congrArg (· >>= _) (escape_run (Mode.ofFlags flags) hc r _)
  · next hc =>
    refine items_run_pure hverbose (isStructural_eq_false (Bool.eq_false_iff.2 hc)) ?_ h
    unfold simpleItem
    split <;> first | rfl | exact absurd rfl hc

/-- The source of a text is read item by item. -/
theorem items_run_source (hverbose : hasFlag flags Pattern.verbose = false) (cs : List Char)
    (hfuel : 2 * cs.length + 2 ≤ fuel) (h : r.rest = cs.flatMap charSource ++ ['$']) :
    (items fuel flags atStart found).run r =
      .ok (found.reverse ++ cs.map (charTree (Mode.ofFlags flags)) ++ [.anchor (Mode.ofFlags flags) .lineEnd],
        { r with rest := [] }) := by
  induction cs generalizing fuel found r with
  | nil =>
    obtain ⟨fuel, rfl⟩ : ∃ n, fuel = n + 1 + 1 := ⟨fuel - 2, by simp at hfuel; omega⟩
    rw [items_run_pure hverbose (by decide) rfl h, List.map_nil, List.append_nil, ← List.reverse_cons]
    rfl
  | cons c cs ih =>
    rw [List.flatMap_cons, List.append_assoc] at h
    obtain ⟨used, hused, hstep⟩ := items_run_charSource hverbose c h
    rw [List.length_cons] at hfuel
    obtain ⟨rest, rfl⟩ : ∃ rest, fuel = rest + used := ⟨fuel - used, by omega⟩
    rw [hstep, ih (by omega) rfl]
    simp

/-- The pattern source of a wildcard text is well formed. Flags that change how sources are read are not set. -/
theorem parse_patternSource (s : String)
    (hflags : ∀ flag ∈ [Pattern.template, Pattern.locale, Pattern.verbose,
    Pattern.ascii], hasFlag flags flag = false) :
    parse (patternSource s) flags =
      .ok ⟨tree (Mode.ofFlags flags) s.toList, setFlag flags Pattern.unicode, 0, []⟩ := by
  have htemplate := hflags Pattern.template (by decide)
  have hlocale := hflags Pattern.locale (by decide)
  have hverbose := hflags Pattern.verbose (by decide)
  have hascii := hflags Pattern.ascii (by decide)
  have hsource : (patternSource s).toList = '^' :: (s.toList.flatMap charSource ++ ['$']) := by
    simp [patternSource]
  have hlength : s.toList.length ≤ (s.toList.flatMap charSource).length := by
    induction s.toList with
    | nil => exact le_rfl
    | cons c cs ih =>
      rw [List.flatMap_cons, List.length_append, List.length_cons]
      have hchar : 1 ≤ (charSource c).length := by
        unfold charSource escapeSpecial
        split_ifs <;> simp
      omega
  have hread (fuel : Nat) (hfuel : 2 * s.toList.length + 4 ≤ fuel) :
      (branches fuel flags true).run ⟨(patternSource s).toList, flags, [], [], none, [], false⟩ =
        .ok (tree (Mode.ofFlags flags) s.toList, ⟨[], flags, [], [], none, [], false⟩) := by
    obtain ⟨fuel, rfl⟩ : ∃ n, fuel = n + 1 + 1 := ⟨fuel - 2, by omega⟩
    rw [branches, StateT.run_bind, items_run_pure hverbose (by decide) rfl hsource,
      items_run_source hverbose s.toList (by omega) rfl, Outcome.ok_bind]
    rfl
  unfold parse
  dsimp only
  rw [hread _ (by rw [hsource, List.length_cons, List.length_append]; omega), Outcome.ok_bind]
  have htemplate' : hasFlag (setFlag flags Pattern.unicode) Pattern.template = false :=
    (hasFlag_setFlag (j := 5) (k := 0)).trans htemplate
  simp [finishFlags, hlocale, hascii, htemplate']

/-- The pattern source of a wildcard text compiles under the flags of every call. -/
theorem compile_patternSource (s : String) {flags : Nat} (h : flags = 0 ∨ flags = Pattern.ignoreCase) :
    compile (patternSource s) flags =
      .ok ⟨⟨patternSource s, setFlag flags Pattern.unicode⟩, tree (Mode.ofFlags flags) s.toList⟩ := by
  rw [compile, parse_patternSource s]
  rcases h with rfl | rfl <;> decide

end Winnow.Wildcard
