import Winnow.Proofs.Pattern.Reading
/-! # Where repetitions nest

A repetition without a bound nests another one when its item ends in it. A pattern in which repetitions nest is
written with a group that has an unbounded quantifier behind it, and another one at the end of its text. Behind
the inner one there may still be marks of it, the ends of inner groups, other alternatives and text that is passed
over. -/

namespace Winnow.Pattern

open Safety

variable {m g s u w before : List Char} {c : Char} {t item body : Tree} {ts found : List Tree}
  {alternatives : List (List Tree)} {fuel : Nat}

/-! ## Trees -/

/-- Does the item end, in some alternative, in a repetition without a bound? -/
def Tree.endsUnbounded : Tree → Bool
  | repeated _ _ most _ => most.isNone
  | sequence items => lastEnds items
  | branch branches => anyEnds branches
  | group _ body | atomic body | look _ _ _ body => body.endsUnbounded
  | conditional _ yes no => yes.endsUnbounded || no.endsUnbounded
  | _ => false
where
  lastEnds : List Tree → Bool
  | [] => false
  | [t] => t.endsUnbounded
  | _ :: ts => lastEnds ts
  anyEnds : List Tree → Bool
  | [] => false
  | t :: ts => t.endsUnbounded || anyEnds ts

/-- Is an item of the tree repeated without a bound that ends in a repetition without a bound? -/
def Tree.nests : Tree → Bool
  | repeated body _ most _ => (most.isNone && body.endsUnbounded) || body.nests
  | sequence items | branch items => anyNests items
  | group _ body | atomic body | look _ _ _ body => body.nests
  | conditional _ yes no => yes.nests || no.nests
  | _ => false
where
  anyNests : List Tree → Bool
  | [] => false
  | t :: ts => t.nests || anyNests ts

open Tree.endsUnbounded Tree.nests

theorem lastEnds_cons_cons (t u : Tree) (ts : List Tree) : lastEnds (t :: u :: ts) = lastEnds (u :: ts) := by
  rw [lastEnds]
  simp

theorem lastEnds_concat (ts : List Tree) (t : Tree) : lastEnds (ts ++ [t]) = t.endsUnbounded := by
  induction ts with
  | nil => rfl
  | cons u us ih =>
    rcases us with _ | ⟨v, vs⟩
    · rw [List.cons_append, List.nil_append, lastEnds_cons_cons]
      rfl
    · rw [List.cons_append, List.cons_append, lastEnds_cons_cons]
      exact ih

theorem lastEnds_of_tail (h : lastEnds ts.tail = true) : lastEnds ts = true := by
  rcases ts with _ | ⟨t, _ | ⟨u, us⟩⟩
  · exact h
  · cases h
  · rw [lastEnds_cons_cons]
    exact h

theorem anyEnds_iff : anyEnds ts = true ↔ ∃ t ∈ ts, t.endsUnbounded = true := by
  induction ts with
  | nil => simp [anyEnds]
  | cons t ts ih => simp [anyEnds, ih]

theorem anyNests_iff : anyNests ts = true ↔ ∃ t ∈ ts, t.nests = true := by
  induction ts with
  | nil => simp [anyNests]
  | cons t ts ih => simp [anyNests, ih]

theorem Tree.nothing_of_isSimple (h : t.isSimple = true) : ¬t.nests = true ∧ ¬t.endsUnbounded = true := by
  cases t <;> first | exact ⟨Bool.false_ne_true, Bool.false_ne_true⟩ | cases h

/-- What is joined of alternatives nests, or ends in a repetition, only where one of them does. -/
structure Joins (alternatives : List (List Tree)) (t : Tree) : Prop where
  nests (h : t.nests = true) : ∃ items ∈ alternatives, ∃ t ∈ items, t.nests = true
  ends (h : t.endsUnbounded = true) : ∃ items ∈ alternatives, lastEnds items = true

theorem joins_of_isSimple (h : t.isSimple = true) : Joins alternatives t := by
  obtain ⟨hnests, hends⟩ := Tree.nothing_of_isSimple h
  exact ⟨fun hn => absurd hn hnests, fun hu => absurd hu hends⟩

theorem joins_branch (alternatives : List (List Tree)) : Joins alternatives (.branch (alternatives.map .sequence)) := by
  constructor
  · intro h
    obtain ⟨_, ht, hnests⟩ := anyNests_iff.1 h
    obtain ⟨items, hitems, rfl⟩ := List.mem_map.1 ht
    exact ⟨items, hitems, anyNests_iff.1 hnests⟩
  · intro h
    obtain ⟨_, ht, hends⟩ := anyEnds_iff.1 h
    obtain ⟨items, hitems, rfl⟩ := List.mem_map.1 ht
    exact ⟨items, hitems, hends⟩

/-- Simple items before it change nothing about this. -/
theorem Joins.after (h : Joins alternatives t) {start : List Tree} (hstart : ∀ u ∈ start, u.isSimple = true) :
    Joins alternatives (.sequence (start.reverse ++ [t])) := by
  constructor
  · intro hnests
    obtain ⟨u, hu, hnests⟩ := anyNests_iff.1 hnests
    rcases List.mem_append.1 hu with hu | hu
    · exact absurd hnests (Tree.nothing_of_isSimple (hstart u (List.mem_reverse.1 hu))).1
    · rw [List.mem_singleton.1 hu] at hnests
      exact h.nests hnests
  · intro hends
    exact h.ends ((lastEnds_concat _ t).symm.trans hends)

theorem joins_joinAlternatives (fuel : Nat) {start : List Tree} (hstart : ∀ u ∈ start, u.isSimple = true) :
    Joins alternatives (joinAlternatives fuel start alternatives) := by
  induction fuel generalizing start alternatives with
  | zero => exact (joins_branch alternatives).after hstart
  | succ fuel ih =>
    rw [joinAlternatives]
    split
    · next t ht =>
      have hstart' : ∀ u ∈ t :: start, u.isSimple = true :=
        List.forall_mem_cons.2 ⟨(commonStart?_spec ht).1, hstart⟩
      have htails : Joins (alternatives.map List.tail) _ := ih hstart'
      constructor
      · intro h
        obtain ⟨_, htail, u, hu, hnests⟩ := htails.nests h
        obtain ⟨items, hitems, rfl⟩ := List.mem_map.1 htail
        exact ⟨items, hitems, u, List.mem_of_mem_tail hu, hnests⟩
      · intro h
        obtain ⟨_, htail, hends⟩ := htails.ends h
        obtain ⟨items, hitems, rfl⟩ := List.mem_map.1 htail
        exact ⟨items, hitems, lastEnds_of_tail hends⟩
    · refine Joins.after ?_ hstart
      split
      · exact joins_of_isSimple rfl
      · exact joins_branch alternatives

/-! ## Texts -/

/-- Texts that are passed over: a blank, a line that is a comment, a group that is a comment. -/
inductive Skipped : List Char → Prop
  | blank {c : Char} (h : isBlankInSource c = true) : Skipped [c]
  | line {w : List Char} (h : (behind? '\n' w).getD [] = []) : Skipped ('#' :: w)
  | comment {w : List Char} (h : behind? ')' w = some []) : Skipped ('(' :: '?' :: '#' :: w)

/-- Texts of nothing but such texts. -/
inductive Gap : List Char → Prop
  | nil : Gap []
  | skipped {g s : List Char} (h : Gap g) (hs : Skipped s) : Gap (g ++ s)

/-- What may follow a quantifier up to the end of a group: a mark of the quantifier, texts that are passed over,
ends of inner groups, and other alternatives. -/
inductive Trailing : List Char → Prop
  | mark {m : List Char} (h : m ∈ [[], ['?'], ['+']]) : Trailing m
  | skipped {m s : List Char} (h : Trailing m) (hs : Skipped s) : Trailing (m ++ s)
  | close {m : List Char} (h : Trailing m) : Trailing (m ++ [')'])
  | alternative {m : List Char} (h : Trailing m) (w : List Char) : Trailing (m ++ '|' :: w)

/-- Does the text end in an unbounded quantifier? -/
def EndsUnbounded (w : List Char) : Prop :=
  ∃ before inner trailing, Unbounded inner ∧ Trailing trailing ∧ w = before ++ inner ++ trailing

namespace EndsUnbounded

theorem prepend (h : EndsUnbounded w) (u : List Char) : EndsUnbounded (u ++ w) := by
  obtain ⟨before, inner, trailing, hinner, htrailing, rfl⟩ := h
  exact ⟨u ++ before, inner, trailing, hinner, htrailing, by simp⟩

theorem append (h : EndsUnbounded w) (hu : ∀ m, Trailing m → Trailing (m ++ u)) : EndsUnbounded (w ++ u) := by
  obtain ⟨before, inner, trailing, hinner, htrailing, rfl⟩ := h
  exact ⟨before, inner, trailing ++ u, hinner, hu trailing htrailing, by simp⟩

end EndsUnbounded

/-- Does the text end with a group that ends in an unbounded quantifier? -/
def ClosesUnbounded (w : List Char) : Prop :=
  ∃ before body gap, EndsUnbounded body ∧ Gap gap ∧ w = before ++ '(' :: (body ++ ')' :: gap)

/-- Are these the parts of a text around nested quantifiers? -/
structure IsNested (n : Parts) : Prop where
  inner : Unbounded n.inner
  trailing : Trailing n.trailing
  gap : Gap n.gap
  outer : Unbounded n.outer

/-- Does the text have nested quantifiers? -/
def Nested (w : List Char) : Prop := ∃ n, IsNested n ∧ w = n.text

namespace ClosesUnbounded

theorem prepend (h : ClosesUnbounded w) (u : List Char) : ClosesUnbounded (u ++ w) := by
  obtain ⟨before, body, gap, hbody, hgap, rfl⟩ := h
  exact ⟨u ++ before, body, gap, hbody, hgap, by simp⟩

theorem skipped (h : ClosesUnbounded w) (hs : Skipped s) : ClosesUnbounded (w ++ s) := by
  obtain ⟨before, body, gap, hbody, hgap, rfl⟩ := h
  exact ⟨before, body, gap ++ s, hbody, hgap.skipped hs, by simp⟩

theorem ends (h : ClosesUnbounded w) : EndsUnbounded w := by
  obtain ⟨before, body, gap, hbody, hgap, rfl⟩ := h
  have htrailing (m : List Char) (hm : Trailing m) : Trailing (m ++ ')' :: gap) := by
    induction hgap with
    | nil => exact hm.close
    | skipped _ hs ih => simpa using ih.skipped hs
  have hends := (hbody.append htrailing).prepend (before ++ ['('])
  simpa using hends

theorem nested (h : ClosesUnbounded w) (hu : Unbounded u) : Nested (w ++ u) := by
  obtain ⟨before, _, gap, ⟨body, inner, trailing, hinner, htrailing, rfl⟩, hgap, rfl⟩ := h
  refine ⟨⟨before, body, inner, trailing, gap, u, []⟩, ⟨hinner, htrailing, hgap, hu⟩, ?_⟩
  simp [Parts.text]

end ClosesUnbounded

namespace Nested

theorem prepend (h : Nested w) (u : List Char) : Nested (u ++ w) := by
  obtain ⟨n, ⟨hinner, htrailing, hgap, houter⟩, rfl⟩ := h
  exact ⟨{ n with before := u ++ n.before }, ⟨hinner, htrailing, hgap, houter⟩, by simp [Parts.text]⟩

theorem append (h : Nested w) (u : List Char) : Nested (w ++ u) := by
  obtain ⟨n, ⟨hinner, htrailing, hgap, houter⟩, rfl⟩ := h
  exact ⟨{ n with after := n.after ++ u }, ⟨hinner, htrailing, hgap, houter⟩, by simp [Parts.text]⟩

end Nested

/-! ## Trees and their texts -/

/-- Is the text one of the tree, as far as repetitions go? -/
structure Located (t : Tree) (w : List Char) : Prop where
  nested (h : t.nests = true) : Nested w
  ends (h : t.endsUnbounded = true) : EndsUnbounded w

theorem Located.prepend (h : Located t w) (u : List Char) : Located t (u ++ w) :=
  ⟨fun hn => (h.nested hn).prepend u, fun hends => (h.ends hends).prepend u⟩

/-- Is the text one of an item to which no quantifier belongs yet? -/
structure Standing (t : Tree) (w : List Char) : Prop where
  nested (h : t.nests = true) : Nested w
  closes (h : t.endsUnbounded = true) : ClosesUnbounded w

theorem Standing.of_isSimple (h : t.isSimple = true) : Standing t w := by
  obtain ⟨hnests, hends⟩ := Tree.nothing_of_isSimple h
  exact ⟨fun hn => absurd hn hnests, fun hu => absurd hu hends⟩

/-- A group stands for its body, whatever its opening. -/
theorem Located.enclosed (h : Located body w) (hnests : t.nests = body.nests)
    (hends : t.endsUnbounded = body.endsUnbounded) (u : List Char) : Standing t ('(' :: (u ++ (w ++ [')']))) := by
  constructor
  · intro hnested
    have hw := ((h.nested (hnests ▸ hnested)).prepend ('(' :: u)).append [')']
    simpa using hw
  · intro hunbounded
    exact ⟨[], u ++ w, [], (h.ends (hends ▸ hunbounded)).prepend u, .nil, by simp⟩

/-- Is the text one of the items that were found, the last one first? -/
structure Found (found : List Tree) (w : List Char) : Prop where
  nested (t : Tree) (ht : t ∈ found) (h : t.nests = true) : Nested w
  ends (t : Tree) (before : List Tree) (hfound : found = t :: before) (h : t.endsUnbounded = true) :
    EndsUnbounded w
  closes (t : Tree) (before : List Tree) (hfound : found = t :: before) (hitem : t.isRepeatable = true)
    (h : t.endsUnbounded = true) : ClosesUnbounded w

namespace Found

theorem nil : Found [] w := ⟨nofun, nofun, nofun⟩

theorem skipped (h : Found found w) (hs : Skipped s) : Found found (w ++ s) where
  nested t ht hn := (h.nested t ht hn).append s
  ends t before hfound hu := (h.ends t before hfound hu).append fun _ hm => hm.skipped hs
  closes t before hfound hitem hu := (h.closes t before hfound hitem hu).skipped hs

theorem add (h : Found found w) (ht : Standing t u) : Found (t :: found) (w ++ u) := by
  constructor
  case nested =>
    intro t' ht' hn
    rcases List.mem_cons.1 ht' with rfl | ht'
    · exact (ht.nested hn).prepend w
    · exact (h.nested t' ht' hn).append u
  case ends =>
    rintro _ _ ⟨⟩ hu
    exact (ht.closes hu).ends.prepend w
  case closes =>
    rintro _ _ ⟨⟩ - hu
    exact (ht.closes hu).prepend w

/-- A quantifier makes the last item a repetition, and one that nests where the item ends in another one. -/
theorem repeated {before : List Tree} {least : Nat} {most : Option Nat} {greed : Greed}
    (h : Found (item :: before) w) (hitem : item.isRepeatable = true) (hu : most = none → Unbounded u)
    (hm : m ∈ [[], ['?'], ['+']]) : Found (.repeated item least most greed :: before) (w ++ (u ++ m)) := by
  have hnested : most = none → item.endsUnbounded = true → Nested (w ++ (u ++ m)) := by
    intro hmost hends
    have hw := ((h.closes item before rfl hitem hends).nested (hu hmost)).append m
    rwa [List.append_assoc] at hw
  constructor
  case nested =>
    intro t ht hn
    rcases List.mem_cons.1 ht with rfl | ht
    · rcases Bool.or_eq_true_iff.1 hn with hn | hn
      · obtain ⟨hmost, hends⟩ := Bool.and_eq_true_iff.1 hn
        exact hnested (Option.isNone_iff_eq_none.1 hmost) hends
      · exact (h.nested item List.mem_cons_self hn).append _
    · exact (h.nested t (List.mem_cons_of_mem _ ht) hn).append _
  case ends =>
    rintro _ _ ⟨⟩ hends
    exact ⟨w, u, m, hu (Option.isNone_iff_eq_none.1 hends), .mark hm, (List.append_assoc ..).symm⟩
  case closes => rintro _ _ ⟨⟩ ⟨⟩

theorem sequence (h : Found found w) : Located (.sequence found.reverse) w := by
  constructor
  · intro hn
    obtain ⟨t, ht, hn⟩ := anyNests_iff.1 hn
    exact h.nested t (List.mem_reverse.1 ht) hn
  · intro hends
    cases found with
    | nil => cases hends
    | cons t before =>
      refine h.ends t before rfl ?_
      rw [List.reverse_cons] at hends
      exact (lastEnds_concat _ t).symm.trans hends

end Found

/-- Is the text one of the alternatives that follow others? -/
structure Alternatives (alternatives : List (List Tree)) (w : List Char) : Prop where
  located (items : List Tree) (hitems : items ∈ alternatives) : Located (.sequence items) w
  starts : w = [] ∨ ∃ u, w = '|' :: u

theorem Alternatives.nil : Alternatives [] [] := ⟨nofun, .inl rfl⟩

/-- Alternatives behind a first one. -/
theorem Alternatives.cons (h : Alternatives alternatives w) (ht : Located (.sequence ts) u) (items : List Tree)
    (hitems : items ∈ ts :: alternatives) : Located (.sequence items) (u ++ w) := by
  rcases List.mem_cons.1 hitems with rfl | hitems
  · refine ⟨fun hn => (ht.nested hn).append w, fun hends => ?_⟩
    rcases h.starts with rfl | ⟨v, rfl⟩
    · rw [List.append_nil]
      exact ht.ends hends
    · exact (ht.ends hends).append fun _ hm => hm.alternative v
  · exact (h.located items hitems).prepend u

theorem Alternatives.bar (h : Alternatives alternatives w) (ht : Located (.sequence ts) u) :
    Alternatives (ts :: alternatives) ('|' :: (u ++ w)) :=
  ⟨fun items hitems => (h.cons ht items hitems).prepend ['|'], .inr ⟨u ++ w, rfl⟩⟩

theorem Joins.located (h : Joins alternatives t) (hw : ∀ items ∈ alternatives, Located (.sequence items) w) :
    Located t w := by
  constructor
  · intro hn
    obtain ⟨items, hitems, hn⟩ := h.nests hn
    exact (hw items hitems).nested (anyNests_iff.2 hn)
  · intro hends
    obtain ⟨items, hitems, hends⟩ := h.ends hends
    exact (hw items hitems).ends hends

/-! ## Readers -/

open Winnow.Pattern.Parser

/-- Is the text, behind the opening of a group, that of the group? -/
def Enclosed (t : Tree) (w : List Char) : Prop := ∀ u, Standing t ('(' :: (u ++ w))

theorem Enclosed.behind (h : Enclosed t w) (v : List Char) : Enclosed t (v ++ w) := by
  intro u
  rw [← List.append_assoc]
  exact h (u ++ v)

/-- Do the readers of groups and items come to trees of the texts they take, with fuel for a number of steps? -/
structure LocatedWithin (fuel : Nat) : Prop where
  branches (flags : Int) (outermost : Bool) : (branches fuel flags outermost).Reads Located
  moreBranches (flags : Int) (outermost : Bool) : (moreBranches fuel flags outermost).Reads Alternatives
  items (flags : Int) (atStart : Bool) {found : List Tree} {w : List Char} (h : Found found w) :
    (items fuel flags atStart found).Reads fun ts u => Located (.sequence ts) (w ++ u)
  capture (flags : Int) (name : Option String) : (capture fuel flags name).Reads Enclosed
  extension (flags : Int) (c : Char) : (extension fuel flags c).Reads Enclosed
  lookaround (flags : Int) (ahead negated : Bool) : (lookaround fuel flags ahead negated).Reads Enclosed

namespace LocatedWithin

variable (ih : LocatedWithin fuel) (flags : Int)

include ih

theorem firstItems (atStart : Bool) :
    (Pattern.items fuel flags atStart []).Reads fun ts u => Located (.sequence ts) u :=
  ih.items flags atStart (w := []) .nil

theorem branches_succ (outermost : Bool) : (Pattern.branches (fuel + 1) flags outermost).Reads Located := by
  rw [Pattern.branches]
  refine .bind (ih.firstItems flags outermost) fun first w hfirst => .get fun r => ?_
  refine .bind (ih.moreBranches _ outermost) fun more u hmore => .pure ?_
  have hall := hmore.cons hfirst
  rw [List.append_nil]
  cases more with
  | nil => exact hall first List.mem_cons_self
  | cons second rest => exact (joins_joinAlternatives _ (List.forall_mem_nil _)).located hall

theorem moreBranches_succ (outermost : Bool) :
    (Pattern.moreBranches (fuel + 1) flags outermost).Reads Alternatives := by
  rw [Pattern.moreBranches]
  refine .bind (reads_accept '|') fun b w hw => .ite (fun hb => ?_) fun hb => .pure ?_
  · refine .bind (ih.firstItems flags false) fun ts u hts => ?_
    refine .bind (ih.moreBranches flags outermost) fun more v hmore => .pure ?_
    rw [hw, if_pos hb, List.append_nil]
    exact hmore.bar hts
  · rw [hw, if_neg hb]
    exact .nil

theorem capture_succ (name : Option String) : (Pattern.capture (fuel + 1) flags name).Reads Enclosed := by
  rw [Pattern.capture]
  refine .after (takes_openGroup name) fun g w => .bind (ih.branches flags false) fun body u hbody => ?_
  refine .bind reads_closeParenthesis fun _ v hv => .bind (reads_closeGroup g body) fun _ x hx => .pure ?_
  intro opening
  subst hv hx
  have hstanding := hbody.enclosed (t := .group (some g) body) rfl rfl (opening ++ w)
  simpa using hstanding

theorem lookaround_succ (ahead negated : Bool) :
    (Pattern.lookaround (fuel + 1) flags ahead negated).Reads Enclosed := by
  rw [Pattern.lookaround]
  refine .get fun r => .when (fun _ => .modify (fun _ => rfl) rfl) ?_
  refine .bind (ih.branches flags false) fun body u hbody => ?_
  refine .bind (.modify (P := fun _ w => w = []) (fun _ => rfl) rfl) fun _ v hv => ?_
  refine .bind reads_closeParenthesis fun _ x hx => ?_
  refine (reads_lookTree ahead negated body).mono fun t y hy opening => ?_
  obtain ⟨rfl, width, rfl⟩ := hy
  subst hv hx
  have hstanding := hbody.enclosed (t := .look ahead negated width body) rfl rfl opening
  simpa using hstanding

theorem extension_succ (c : Char) : (Pattern.extension (fuel + 1) flags c).Reads Enclosed := by
  have enclosed {body t : Tree} {w : List Char} (hbody : Located body w) (hnests : t.nests = body.nests)
      (hends : t.endsUnbounded = body.endsUnbounded) : (do closeParenthesis; return t : Parser Tree).Reads
        fun t u => Enclosed t (w ++ u) := by
    refine .bind reads_closeParenthesis fun _ v hv => .pure fun opening => ?_
    rw [hv, List.append_nil]
    exact hbody.enclosed hnests hends opening
  unfold Pattern.extension
  split
  · refine .after (takes_accept _) fun _ v => .ite (fun _ => ?_) fun _ => ?_
    · refine .after (takes_takeUntil _) fun name u => .ite (fun _ => ?_) fun _ => .bad
      exact (ih.capture flags (some name)).mono fun t w ht => (ht.behind u).behind v
    · refine .after (takes_accept _) fun _ _ => .ite (fun _ => ?_) fun _ => .bad
      refine .after (takes_takeUntil _) fun name _ => .get fun r => ?_
      split
      · exact (takesSimple_referenceTo _ _).mono fun t w ht _ => .of_isSimple ht
      · exact .bad
  · exact .bind (ih.branches flags false) fun body w hbody => enclosed hbody rfl rfl
  · exact .bind (ih.branches flags false) fun body w hbody => enclosed hbody rfl rfl
  · exact ih.lookaround flags true false
  · exact ih.lookaround flags true true
  · refine .after (takes_accept _) fun _ v => .ite (fun _ => ?_) fun _ => ?_
    · exact (ih.lookaround flags false false).mono fun t w ht => ht.behind v
    · refine .after (takes_accept _) fun _ u => .ite (fun _ => ?_) fun _ => .bad
      exact (ih.lookaround flags false true).mono fun t w ht => (ht.behind u).behind v
  · refine .after takes_conditionGroup fun g v => .bind (ih.firstItems flags false) fun yes w hyes => ?_
    have joined {no : List Tree} {u : List Char} (hall : ∀ items ∈ [yes, no], Located (.sequence items) (w ++ u)) :
        (do closeParenthesis; return .conditional g (.sequence yes) (.sequence no) : Parser Tree).Reads
          fun t x => Enclosed t (v ++ (w ++ (u ++ x))) := by
      have hbranch := (joins_branch [yes, no]).located hall
      refine (enclosed hbranch ?_ ?_).mono fun t x ht => ?_
      · simp [Tree.nests, anyNests]
      · simp [Tree.endsUnbounded, anyEnds]
      · simpa using ht.behind v
    refine .bind (reads_accept '|') fun b x hx => .ite (fun hb => ?_) fun hb => ?_
    · refine .bind (ih.firstItems flags false) fun no u hno => ?_
      rw [hx, if_pos hb]
      have hall := (Alternatives.nil.bar hno).cons hyes
      rw [List.append_nil] at hall
      exact joined hall
    · refine .bind (P := fun no u => no = [] ∧ u = []) (.pure ⟨rfl, rfl⟩) fun no u hno => ?_
      rw [hx, if_neg hb, hno.1, hno.2]
      refine joined (u := []) fun items hitems => ?_
      rw [List.append_nil]
      rcases List.mem_cons.1 hitems with rfl | hitems
      · exact hyes
      · rw [List.mem_singleton.1 hitems]
        exact Found.nil.sequence
  · exact .bad

theorem items_succ (atStart : Bool) {found : List Tree} {w : List Char} (h : Found found w) :
    (Pattern.items (fuel + 1) flags atStart found).Reads fun ts u => Located (.sequence ts) (w ++ u) := by
  have onwards {flags : Int} {found : List Tree} {u : List Char} (hfound : Found found (w ++ u)) :
      (Pattern.items fuel flags atStart found).Reads fun ts v => Located (.sequence ts) (w ++ (u ++ v)) :=
    (ih.items flags atStart hfound).mono fun ts v hts => by rwa [List.append_assoc] at hts
  have repeated {u : List Char} (least : Nat) (most : Option Nat) (hu : most = none → Unbounded u) :
      (do Pattern.items fuel flags atStart (← repeatLast found least most)).Reads
        fun ts v => Located (.sequence ts) (w ++ (u ++ v)) := by
    refine .bind (reads_repeatLast found least most) fun _ m hrepeated => ?_
    obtain ⟨item, before, greed, rfl, hitem, rfl, hm⟩ := hrepeated
    exact (onwards (h.repeated hitem hu hm)).mono fun ts v hts => by rwa [List.append_assoc] at hts
  rw [Pattern.items]
  have ended : Located (.sequence found.reverse) (w ++ []) := by
    rw [List.append_nil]
    exact h.sequence
  refine .idle reads_peek fun c => ?_
  split
  · exact .pure ended
  · exact .pure ended
  · exact .pure ended
  refine .bind reads_next fun c v hv => ?_
  subst hv
  refine .ite (fun hblank => onwards (h.skipped (.blank hblank.2))) fun _ => .ite (fun hline => ?_) fun _ => ?_
  · refine .bind reads_skipLine fun _ v hv => ?_
    rw [hline.2]
    simpa only [List.append_assoc] using onwards (u := ['#'] ++ v) (h.skipped (.line hv))
  -- a quantifier turns the last item into a repetition
  refine .ite (fun hstar => ?_) fun _ => .ite (fun hplus => ?_) fun _ => .ite (fun hmark => ?_) fun _ => ?_
  · exact repeated 0 none fun _ => hstar ▸ .star
  · exact repeated 1 none fun _ => hplus ▸ .plus
  · exact repeated 0 (some 1) fun hmost => by cases hmost
  refine .ite (fun hbrace => .bind reads_bounds? fun bounds v hv => ?_) fun _ => ?_
  · split
    · next least most =>
      have hunbounded : most = none → Unbounded ([c] ++ v) := fun hmost => hbrace ▸ hv least (by rw [hmost])
      simpa only [List.append_assoc] using repeated least most hunbounded
    · simpa only [List.append_assoc] using onwards (u := [c] ++ v) (h.add (.of_isSimple rfl))
  -- a parenthesis opens a comment, a group with flags of its own, or another group
  refine .ite (fun hopen => .bind (reads_accept '?') fun b v hv => .ite (fun hb => ?_) fun hb => ?_) fun _ => ?_
  · rw [hopen, hv, if_pos hb]
    refine .bind reads_next fun d x hx => .ite (fun hcomment => ?_) fun _ => .ite (fun _ => ?_) fun _ => ?_
    · refine .bind reads_skipComment fun _ y hy => ?_
      rw [hx, hcomment]
      exact onwards (u := '(' :: '?' :: '#' :: y) (h.skipped (.comment hy))
    · refine .after (takes_groupFlags? flags d) fun inner y => ?_
      split
      · refine .ite (fun hstart => .get fun r => ?_) fun _ => .bad
        obtain rfl := List.isEmpty_iff.1 hstart.2
        simpa only [List.append_assoc] using onwards (u := ['('] ++ (['?'] ++ (x ++ y))) .nil
      · refine .bind (ih.branches _ false) fun body u hbody => .bind reads_closeParenthesis fun _ z hz => ?_
        rw [hz]
        have ht := hbody.enclosed (t := .group none body) rfl rfl (['?'] ++ (x ++ y))
        simpa only [List.append_assoc] using onwards (u := ['('] ++ ((['?'] ++ (x ++ y)) ++ (u ++ [')']))) (h.add ht)
    · refine .bind (ih.extension flags d) fun t y ht => ?_
      simpa only [List.append_assoc] using onwards (u := ['('] ++ ((['?'] ++ x) ++ y)) (h.add (ht (['?'] ++ x)))
  · rw [hopen, hv, if_neg hb]
    refine .bind (ih.capture flags none) fun t x ht => ?_
    exact onwards (u := ['('] ++ ([] ++ x)) (h.add (ht []))
  · refine .bind (takesSimple_simpleItem _ c) fun t v ht => ?_
    simpa only [List.append_assoc] using onwards (u := [c] ++ v) (h.add (.of_isSimple ht))

end LocatedWithin

theorem locatedWithin (fuel : Nat) : LocatedWithin fuel := by
  induction fuel with
  | zero =>
    exact ⟨fun _ _ => .bad, fun _ _ => .bad, fun _ _ _ _ _ => .bad, fun _ _ => .bad, fun _ _ => .bad,
      fun _ _ _ => .bad⟩
  | succ fuel ih =>
    exact ⟨ih.branches_succ, ih.moreBranches_succ, ih.items_succ, ih.capture_succ, ih.extension_succ,
      ih.lookaround_succ⟩

/-- A pattern in which repetitions nest is written with nested quantifiers. -/
theorem nested_of_parse {source : String} {flags : Int} {p : Parsed} (hp : parse source flags = .ok p)
    (hn : p.tree.nests = true) : Nested source.toList := by
  unfold parse at hp
  obtain ⟨⟨tree, r⟩, hrun, hp⟩ := Outcome.bind_eq_ok.1 hp
  obtain ⟨w, hw, hlocated⟩ := (locatedWithin _).branches flags true _ tree r hrun
  obtain ⟨_, -, hp⟩ := Outcome.bind_eq_ok.1 hp
  dsimp only at hp hw
  split at hp
  · cases hp
  split at hp
  · cases hp
  obtain rfl := Except.ok.inj hp
  rw [hw]
  exact (hlocated.nested hn).append r.rest

end Winnow.Pattern
