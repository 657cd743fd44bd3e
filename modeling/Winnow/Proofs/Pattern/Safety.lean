import Winnow.Pattern.Safety
/-! # What the guard finds

The guard takes a text for nested when it finds a group in it that is written plainly: without parentheses or
escaped line ends inside, with an unbounded quantifier directly before its end and a quantifier directly behind.
The parts of such a group are named here, and the guard is shown to find one just when there is one. -/

namespace Winnow.Safety

open Text

variable {cs ds rest : List Char}

/-- Texts that repeat what is before them without a bound. -/
inductive Unbounded : List Char → Prop
  | plus : Unbounded ['+']
  | star : Unbounded ['*']
  | counted {ds : List Char} (h : ∀ d ∈ ds, isDigit d = true) : Unbounded ('\x7b' :: (ds ++ [',', '\x7d']))

/-- The texts that the guard takes for quantifiers. -/
inductive Quantifier : List Char → Prop
  | plus : Quantifier ['+']
  | star : Quantifier ['*']
  | exact {ds : List Char} (h : ∀ d ∈ ds, isDigit d = true) : Quantifier ('\x7b' :: (ds ++ ['\x7d']))
  | counted {ds es : List Char} (h : ∀ d ∈ ds, isDigit d = true) (h' : ∀ e ∈ es, isDigit e = true) :
    Quantifier ('\x7b' :: (ds ++ ',' :: (es ++ ['\x7d'])))

/-- Texts without parentheses and escaped line ends; other escaped characters count for nothing. -/
inductive Flat : List Char → Prop
  | nil : Flat []
  | char {c : Char} {cs : List Char} (hopen : c ≠ '(') (hclose : c ≠ ')') (hescape : c ≠ '\\') (h : Flat cs) :
    Flat (c :: cs)
  | escaped {c : Char} {cs : List Char} (hline : c ≠ '\n') (h : Flat cs) : Flat ('\\' :: c :: cs)

/-! ## Quantifiers -/

theorem Unbounded.exists_last {q : List Char} (h : Unbounded q) :
    ∃ start c, q = start ++ [c] ∧ (c = '+' ∨ c = '*' ∨ c = '\x7d') := by
  cases h with
  | plus => exact ⟨[], '+', rfl, .inl rfl⟩
  | star => exact ⟨[], '*', rfl, .inr (.inl rfl)⟩
  | @counted ds _ => exact ⟨'\x7b' :: (ds ++ [',']), '\x7d', by simp, .inr (.inr rfl)⟩

theorem dropWhile_digits (hds : ∀ d ∈ ds, isDigit d = true) {c : Char} (hc : isDigit c = false) :
    (ds ++ c :: rest).dropWhile isDigit = c :: rest := by
  rw [List.dropWhile_append_of_pos hds, List.dropWhile_cons_of_neg (by simp [hc])]

/-- Digits up to the first other character. -/
theorem exists_digits (cs : List Char) :
    ∃ ds, (∀ d ∈ ds, isDigit d = true) ∧ cs = ds ++ cs.dropWhile isDigit :=
  ⟨cs.takeWhile isDigit, List.all_eq_true.1 List.all_takeWhile, List.takeWhile_append_dropWhile.symm⟩

theorem isDigit_comma : isDigit ',' = false := by decide

theorem isDigit_brace : isDigit '\x7d' = false := by decide

theorem afterUnbounded?_eq_some : afterUnbounded? cs = some rest ↔ ∃ q, Unbounded q ∧ cs = q ++ rest := by
  constructor
  · intro h
    unfold afterUnbounded? at h
    split at h
    · obtain rfl := Option.some.inj h
      exact ⟨_, .plus, rfl⟩
    · obtain rfl := Option.some.inj h
      exact ⟨_, .star, rfl⟩
    · next text =>
      obtain ⟨ds, hds, htext⟩ := exists_digits text
      split at h
      · next hdrop =>
        obtain rfl := Option.some.inj h
        refine ⟨_, .counted hds, ?_⟩
        rw [htext, hdrop]
        simp
      · cases h
    · cases h
  · rintro ⟨q, hq, rfl⟩
    cases hq with
    | plus => rfl
    | star => rfl
    | counted hds => simp [afterUnbounded?, dropWhile_digits hds isDigit_comma]

theorem startsQuantifier_iff : startsQuantifier cs = true ↔ ∃ q rest, Quantifier q ∧ cs = q ++ rest := by
  constructor
  · intro h
    unfold startsQuantifier at h
    split at h
    · exact ⟨_, _, .plus, rfl⟩
    · exact ⟨_, _, .star, rfl⟩
    · next text =>
      obtain ⟨ds, hds, htext⟩ := exists_digits text
      split at h
      · next more hdrop =>
        obtain ⟨es, hes, hmore⟩ := exists_digits more
        obtain ⟨rest, hrest⟩ := List.head?_eq_some_iff.1 (eq_of_beq h)
        refine ⟨_, rest, .counted hds hes, ?_⟩
        rw [htext, hdrop, hmore, hrest]
        simp
      · obtain ⟨rest, hrest⟩ := List.head?_eq_some_iff.1 (eq_of_beq h)
        refine ⟨_, rest, .exact hds, ?_⟩
        rw [htext, hrest]
        simp
    · cases h
  · rintro ⟨q, rest, hq, rfl⟩
    cases hq with
    | plus => rfl
    | star => rfl
    | exact hds => simp [startsQuantifier, dropWhile_digits hds isDigit_brace]
    | counted hds hes =>
      simp [startsQuantifier, dropWhile_digits hds isDigit_comma, dropWhile_digits hes isDigit_brace]

/-! ## Groups -/

theorem endsNested_iff : endsNested cs = true ↔
    ∃ inner outer rest, Unbounded inner ∧ Quantifier outer ∧ cs = inner ++ ')' :: (outer ++ rest) := by
  unfold endsNested
  constructor
  · intro h
    split at h
    · next hafter =>
      obtain ⟨inner, hinner, rfl⟩ := afterUnbounded?_eq_some.1 hafter
      obtain ⟨outer, rest, houter, rfl⟩ := startsQuantifier_iff.1 h
      exact ⟨inner, outer, rest, hinner, houter, rfl⟩
    · cases h
  · rintro ⟨inner, outer, rest, hinner, houter, rfl⟩
    rw [afterUnbounded?_eq_some.2 ⟨inner, hinner, rfl⟩]
    exact startsQuantifier_iff.2 ⟨outer, rest, houter, rfl⟩

theorem nestedWithin_of_endsNested (h : endsNested cs = true) : nestedWithin cs = true := by
  unfold nestedWithin
  split
  · cases h
  · rw [h, Bool.true_or]
  · rw [h, Bool.true_or]

theorem nestedWithin_iff :
    nestedWithin cs = true ↔ ∃ body rest, Flat body ∧ endsNested rest = true ∧ cs = body ++ rest := by
  constructor
  · intro h
    fun_induction nestedWithin cs with
    | case1 => cases h
    | case2 c rest ih =>
      rcases Bool.or_eq_true_iff.1 h with hends | hwithin
      · exact ⟨[], _, .nil, hends, rfl⟩
      · obtain ⟨hline, hwithin⟩ := Bool.and_eq_true_iff.1 hwithin
        obtain ⟨body, rest, hbody, hends, rfl⟩ := ih hwithin
        exact ⟨_, rest, .escaped (bne_iff_ne.1 hline) hbody, hends, rfl⟩
    | case3 c rest _ ih =>
      rcases Bool.or_eq_true_iff.1 h with hends | hwithin
      · exact ⟨[], _, .nil, hends, rfl⟩
      · simp only [Bool.and_eq_true, bne_iff_ne] at hwithin
        obtain ⟨⟨⟨hopen, hclose⟩, hescape⟩, hwithin⟩ := hwithin
        obtain ⟨body, rest, hbody, hends, rfl⟩ := ih hwithin
        exact ⟨_, rest, .char hopen hclose hescape hbody, hends, rfl⟩
  · rintro ⟨body, rest, hbody, hends, rfl⟩
    induction hbody with
    | nil => exact nestedWithin_of_endsNested hends
    | char hopen hclose hescape _ ih =>
      rw [List.cons_append, nestedWithin]
      · simp [hopen, hclose, hescape, ih]
      · rintro c cs rfl
        exact absurd rfl hescape
    | escaped hline _ ih =>
      rw [List.cons_append, List.cons_append, nestedWithin]
      simp [hline, ih]

theorem hasNested_iff :
    hasNested cs = true ↔ ∃ before rest, nestedWithin rest = true ∧ cs = before ++ '(' :: rest := by
  induction cs with
  | nil => simp [hasNested]
  | cons c cs ih =>
    rw [hasNested, Bool.or_eq_true, ih]
    constructor
    · rintro (h | ⟨before, rest, hwithin, rfl⟩)
      · obtain ⟨hopen, hwithin⟩ := Bool.and_eq_true_iff.1 h
        exact ⟨[], cs, hwithin, by rw [eq_of_beq hopen, List.nil_append]⟩
      · exact ⟨c :: before, rest, hwithin, rfl⟩
    · rintro ⟨_ | ⟨_, before⟩, rest, hwithin, heq⟩
      · obtain ⟨rfl, rfl⟩ := List.cons_eq_cons.1 heq
        exact .inl (by simpa using hwithin)
      · obtain ⟨rfl, rfl⟩ := List.cons_eq_cons.1 heq
        exact .inr ⟨before, rest, hwithin, rfl⟩

/-- The parts of a text around a repeated group: what is before the group, its text up to a quantifier, this
quantifier, what follows it in the group, what follows the group up to the quantifier of the group, this
quantifier, and the rest. -/
structure Parts where
  before : List Char
  body : List Char
  inner : List Char
  trailing : List Char
  gap : List Char
  outer : List Char
  after : List Char

def Parts.text (n : Parts) : List Char :=
  n.before ++ '(' :: (n.body ++ n.inner ++ n.trailing ++ ')' :: (n.gap ++ n.outer ++ n.after))

/-- Is the group written plainly? -/
structure Parts.IsPlain (n : Parts) : Prop where
  body : Flat n.body
  inner : Unbounded n.inner
  trailing : n.trailing = []
  gap : n.gap = []
  outer : Quantifier n.outer

/-- Is a group of the text written plainly? -/
def PlainlyNested (s : String) : Prop := ∃ n : Parts, n.IsPlain ∧ s.toList = n.text

/-- The guard finds the plain groups. -/
theorem hasNested_iff_plainlyNested {s : String} : hasNested s.toList = true ↔ PlainlyNested s := by
  rw [hasNested_iff]
  constructor
  · rintro ⟨before, _, hwithin, hs⟩
    obtain ⟨body, _, hbody, hends, rfl⟩ := nestedWithin_iff.1 hwithin
    obtain ⟨inner, outer, after, hinner, houter, rfl⟩ := endsNested_iff.1 hends
    refine ⟨⟨before, body, inner, [], [], outer, after⟩, ⟨hbody, hinner, rfl, rfl, houter⟩, ?_⟩
    rw [hs]
    simp [Parts.text]
  · rintro ⟨⟨before, body, inner, trailing, gap, outer, after⟩, ⟨hbody, hinner, htrailing, hgap, houter⟩, hs⟩
    dsimp only at htrailing hgap
    subst htrailing hgap
    have hends := endsNested_iff.2 ⟨inner, outer, after, hinner, houter, rfl⟩
    refine ⟨before, _, nestedWithin_iff.2 ⟨body, _, hbody, hends, rfl⟩, ?_⟩
    rw [hs]
    simp [Parts.text]

end Winnow.Safety
