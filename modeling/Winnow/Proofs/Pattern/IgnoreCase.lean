import Mathlib.Data.List.Forall2
import Winnow.Pattern.Match
import Winnow.Proofs.Outcome
import Winnow.Proofs.Pattern.Flags
/-! # Case does not decide what is a pattern

Whether case is ignored changes what a pattern matches, never whether a source is a pattern. Two readings
of a source with flags that differ in this alone go the same way: they fail alike, or come to trees of the
same width with the same repetitions. -/

namespace Winnow.Pattern

variable {α β γ δ : Type}

/-! ## Trees alike -/

/-- May a repetition follow the item? -/
def Tree.isRepeatable : Tree → Bool
  | anchor .. | repeated .. => false
  | _ => true

/-- Are the trees the same to a reader of what surrounds them? -/
structure Tree.Alike (t u : Tree) : Prop where
  width (groups : Nat → Width) : t.width groups = u.width groups
  repeats : t.repeats = u.repeats
  isRepeatable : t.isRepeatable = u.isRepeatable

abbrev TreesAlike : List Tree → List Tree → Prop := List.Forall₂ Tree.Alike

theorem TreesAlike.total {ts us : List Tree} (h : TreesAlike ts us) (groups : Nat → Width) :
    Tree.width.total groups ts = Tree.width.total groups us := by
  induction h with
  | nil => rfl
  | cons ht _ ih => rw [Tree.width.total, Tree.width.total, ht.width groups, ih]

theorem TreesAlike.anyRepeats {ts us : List Tree} (h : TreesAlike ts us) :
    Tree.repeats.anyRepeats ts = Tree.repeats.anyRepeats us := by
  induction h with
  | nil => rfl
  | cons ht _ ih => rw [Tree.repeats.anyRepeats, Tree.repeats.anyRepeats, ht.repeats, ih]

theorem TreesAlike.sequence {ts us : List Tree} (h : TreesAlike ts us) :
    (Tree.sequence ts).Alike (.sequence us) :=
  ⟨h.total, h.anyRepeats, rfl⟩

/-! ### Joined alternatives -/

namespace Width

theorem add_assoc (a b c : Width) : (a.add b).add c = a.add (b.add c) := by
  obtain ⟨_, _ | _⟩ := a <;> obtain ⟨_, _ | _⟩ := b <;> obtain ⟨_, _ | _⟩ := c <;> simp [add, Nat.add_assoc]

theorem zero_add (a : Width) : add (0, some 0) a = a := by
  obtain ⟨_, _ | _⟩ := a <;> simp [add]

theorem add_zero (a : Width) : a.add (0, some 0) = a := by
  obtain ⟨_, _ | _⟩ := a <;> simp [add]

theorem add_join (a b c : Width) : a.add (b.join c) = (a.add b).join (a.add c) := by
  obtain ⟨_, _ | _⟩ := a <;> obtain ⟨_, _ | _⟩ := b <;> obtain ⟨_, _ | _⟩ := c <;>
    simp [add, join, Nat.add_min_add_left, Nat.add_max_add_left]

end Width

variable {groups : Nat → Width}

theorem total_append (ts us : List Tree) :
    Tree.width.total groups (ts ++ us) = (Tree.width.total groups ts).add (Tree.width.total groups us) := by
  induction ts with
  | nil => exact (Width.zero_add _).symm
  | cons t ts ih => rw [List.cons_append, Tree.width.total, ih, Tree.width.total, Width.add_assoc]

theorem anyRepeats_append (ts us : List Tree) :
    Tree.repeats.anyRepeats (ts ++ us) = (Tree.repeats.anyRepeats ts || Tree.repeats.anyRepeats us) := by
  induction ts with
  | nil => rfl
  | cons t ts ih => rw [List.cons_append, Tree.repeats.anyRepeats, ih, Tree.repeats.anyRepeats, Bool.or_assoc]

theorem widest_cons {t : Tree} {ts : List Tree} (h : ts ≠ []) :
    Tree.width.widest groups (t :: ts) = (t.width groups).join (Tree.width.widest groups ts) := by
  cases ts with
  | nil => exact absurd rfl h
  | cons => rfl

theorem Tree.sameAs_alike {t u : Tree} (hsimple : t.isSimple = true) (h : t.sameAs u = true) : t.Alike u := by
  cases t <;> cases u <;> simp_all [isSimple, sameAs] <;> exact ⟨fun _ => rfl, rfl, rfl⟩

theorem Tree.repeats_of_isSimple {t : Tree} (h : t.isSimple = true) : t.repeats = false := by
  cases t <;> first | rfl | cases h

/-- A common start is the same in all alternatives. -/
theorem commonStart?_spec {alternatives : List (List Tree)} {t : Tree}
    (h : commonStart? alternatives = some t) :
    t.isSimple = true ∧ ∀ items ∈ alternatives, ∃ u, items = u :: items.tail ∧ t.Alike u := by
  unfold commonStart? at h
  split at h
  · next t' first rest =>
    split at h
    · next hcommon =>
      obtain rfl := Option.some.inj h
      refine ⟨hcommon.1, fun items hitems => ?_⟩
      rcases List.mem_cons.1 hitems with rfl | hitems
      · exact ⟨t', rfl, fun _ => rfl, rfl, rfl⟩
      · have hhead := List.all_eq_true.1 hcommon.2 items hitems
        cases items with
        | nil => cases hhead
        | cons u us => exact ⟨u, rfl, Tree.sameAs_alike hcommon.1 hhead⟩
    · cases h
  · cases h

/-- The width of alternatives without what all start with. -/
theorem widest_of_common {t : Tree} {alternatives : List (List Tree)} (hne : alternatives ≠ [])
    (h : ∀ items ∈ alternatives, ∃ u, items = u :: items.tail ∧ t.Alike u) :
    Tree.width.widest groups (alternatives.map .sequence) =
      (t.width groups).add (Tree.width.widest groups ((alternatives.map List.tail).map .sequence)) := by
  induction alternatives with
  | nil => exact absurd rfl hne
  | cons items rest ih =>
    obtain ⟨u, hitems, hu⟩ := h items (List.mem_cons_self ..)
    have hfirst : (Tree.sequence items).width groups =
        (t.width groups).add ((Tree.sequence items.tail).width groups) := by
      rw [hitems, hu.width groups]
      rfl
    cases hrest : rest with
    | nil => exact hfirst
    | cons second more =>
      have hne' : rest ≠ [] := by rw [hrest]; exact List.cons_ne_nil _ _
      rw [← hrest, List.map_cons, List.map_cons, List.map_cons, widest_cons (by simpa using hne'),
        widest_cons (by simpa using hne'), hfirst, ih hne' fun is his => h is (List.mem_cons_of_mem _ his),
        ← Width.add_join]

theorem anyRepeats_of_common {t : Tree} {alternatives : List (List Tree)} (hsimple : t.isSimple = true)
    (h : ∀ items ∈ alternatives, ∃ u, items = u :: items.tail ∧ t.Alike u) :
    Tree.repeats.anyRepeats (alternatives.map .sequence) =
      Tree.repeats.anyRepeats ((alternatives.map List.tail).map .sequence) := by
  induction alternatives with
  | nil => rfl
  | cons items rest ih =>
    obtain ⟨u, hitems, hu⟩ := h items (List.mem_cons_self ..)
    have hfirst : (Tree.sequence items).repeats = (Tree.sequence items.tail).repeats := by
      rw [hitems]
      show (u.repeats || Tree.repeats.anyRepeats items.tail) = Tree.repeats.anyRepeats items.tail
      rw [← hu.repeats, Tree.repeats_of_isSimple hsimple, Bool.false_or]
    simp only [List.map_cons, Tree.repeats.anyRepeats, hfirst,
      ih fun is his => h is (List.mem_cons_of_mem _ his)]

/-- Alternatives of one character each span one character. -/
theorem soleMembers?_spec {items : List Tree} {found : Mode × List Member}
    (h : soleMembers? items = some found) (groups : Nat → Width) :
    Tree.width.total groups items = (1, some 1) ∧ Tree.repeats.anyRepeats items = false := by
  unfold soleMembers? at h
  split at h <;> first | exact ⟨rfl, rfl⟩ | cases h

theorem soleMembers?_of_mapM {alternatives : List (List Tree)} {found : List (Mode × List Member)}
    (h : alternatives.mapM soleMembers? = some found) {items : List Tree} (hitems : items ∈ alternatives) :
    ∃ f, soleMembers? items = some f := by
  induction alternatives generalizing found with
  | nil => cases hitems
  | cons first rest ih =>
    rw [List.mapM_cons] at h
    obtain ⟨f, hf, h⟩ := Option.bind_eq_some_iff.1 h
    obtain ⟨fs, hfs, -⟩ := Option.bind_eq_some_iff.1 h
    rcases List.mem_cons.1 hitems with rfl | hitems
    · exact ⟨f, hf⟩
    · exact ih hfs hitems

theorem widest_of_sole {alternatives : List (List Tree)} (hne : alternatives ≠ [])
    (h : ∀ items ∈ alternatives, Tree.width.total groups items = (1, some 1)) :
    Tree.width.widest groups (alternatives.map .sequence) = (1, some 1) := by
  induction alternatives with
  | nil => exact absurd rfl hne
  | cons items rest ih =>
    have hfirst : (Tree.sequence items).width groups = (1, some 1) := h items (List.mem_cons_self ..)
    cases hrest : rest with
    | nil => exact hfirst
    | cons second more =>
      have hne' : rest ≠ [] := by rw [hrest]; exact List.cons_ne_nil _ _
      rw [← hrest, List.map_cons, widest_cons (by simpa using hne'), hfirst,
        ih hne' fun is his => h is (List.mem_cons_of_mem _ his)]
      rfl

theorem anyRepeats_of_sole {alternatives : List (List Tree)}
    (h : ∀ items ∈ alternatives, Tree.repeats.anyRepeats items = false) :
    Tree.repeats.anyRepeats (alternatives.map .sequence) = false := by
  induction alternatives with
  | nil => rfl
  | cons items rest ih =>
    have hfirst : (Tree.sequence items).repeats = false := h items (List.mem_cons_self ..)
    rw [List.map_cons, Tree.repeats.anyRepeats, hfirst, ih fun is his => h is (List.mem_cons_of_mem _ his)]
    rfl

/-- Joined alternatives are as wide, and repeat as much, as the alternatives side by side: what is taken out of
them decides neither. -/
theorem joinAlternatives_alike (fuel : Nat) (start : List Tree) {alternatives : List (List Tree)}
    (hne : alternatives ≠ []) :
    (joinAlternatives fuel start alternatives).Alike
      (.sequence (start.reverse ++ [.branch (alternatives.map .sequence)])) := by
  induction fuel generalizing start alternatives with
  | zero => exact ⟨fun _ => rfl, rfl, rfl⟩
  | succ fuel ih =>
    rw [joinAlternatives]
    split
    · next t ht =>
      obtain ⟨hsimple, hcommon⟩ := commonStart?_spec ht
      have hne' : alternatives.map List.tail ≠ [] := by simpa using hne
      obtain ⟨hwidth, hrepeats, hkind⟩ := ih (t :: start) hne'
      refine ⟨fun groups => (hwidth groups).trans ?_, hrepeats.trans ?_, hkind⟩
      · simp only [Tree.width, total_append, List.reverse_cons, Tree.width.total, Width.add_zero,
          Width.add_assoc, widest_of_common hne hcommon]
      · simp only [Tree.repeats, anyRepeats_append, List.reverse_cons, Tree.repeats.anyRepeats, Bool.or_false,
          Tree.repeats_of_isSimple hsimple, anyRepeats_of_common hsimple hcommon]
    · simp only
      split
      · next first rest hsole =>
        have hall (items : List Tree) (hitems : items ∈ alternatives) (groups : Nat → Width) :
            Tree.width.total groups items = (1, some 1) ∧ Tree.repeats.anyRepeats items = false := by
          obtain ⟨found, hfound⟩ := soleMembers?_of_mapM hsole hitems
          exact soleMembers?_spec hfound groups
        refine ⟨fun groups => ?_, ?_, rfl⟩
        · simp only [Tree.width, total_append, Tree.width.total, Width.add_zero,
            widest_of_sole hne fun items hitems => (hall items hitems groups).1]
        · simp only [Tree.repeats, anyRepeats_append, Tree.repeats.anyRepeats, Bool.or_false,
            anyRepeats_of_sole fun items hitems => (hall items hitems fun _ => (0, none)).2]
      · exact ⟨fun _ => rfl, rfl, rfl⟩

/-! ## Readers alike -/

/-- Do the readers differ at most in whether case is ignored? -/
def Reader.Alike (r s : Reader) : Prop := ∃ flags, s = { r with flags } ∧ SameButCase r.flags flags

namespace Reader.Alike

variable {r s : Reader}

theorem flags (h : r.Alike s) : SameButCase r.flags s.flags := by
  obtain ⟨_, rfl, hflags⟩ := h
  exact hflags

/-- Readers stay alike when the same is written into both beside their flags. -/
theorem parts (h : r.Alike s) {rest : List Char} {names : List (String × Nat)} {widths : List (Option Width)}
    {lookbehind : Option Nat} {tested : List Nat} {varies : Bool} :
    Alike ⟨rest, r.flags, names, widths, lookbehind, tested, varies⟩
      ⟨rest, s.flags, names, widths, lookbehind, tested, varies⟩ :=
  ⟨s.flags, rfl, h.flags⟩

end Reader.Alike

/-- From readers that are alike, do the parsers fail alike, or come to related results and readers that are
alike? -/
def Parser.Alike (R : α → β → Prop) (p : Parser α) (q : Parser β) : Prop :=
  ∀ r s, Reader.Alike r s → Outcome.Both (fun a b => R a.1 b.1 ∧ a.2.Alike b.2) (p.run r) (q.run s)

namespace Parser.Alike

variable {R : α → β → Prop} {S : γ → δ → Prop} {p p' : Parser α} {q q' : Parser β}

theorem pure {a : α} {b : β} (h : R a b) : Alike R (Pure.pure a) (Pure.pure b) :=
  fun _ _ hr => .ok ⟨h, hr⟩

theorem throw (e : ParseError) : Alike R (MonadExcept.throw e) (MonadExcept.throw e) := fun _ _ _ => .error e

theorem bad : Alike R Parser.bad Parser.bad := throw .malformed

theorem bind (h : Alike R p q) {f : α → Parser γ} {g : β → Parser δ}
    (hfg : ∀ a b, R a b → Alike S (f a) (g b)) :
    Alike S (p >>= f) (q >>= g) := by
  intro r s hr
  rw [StateT.run_bind, StateT.run_bind]
  exact (h r s hr).bind fun a b hab => hfg a.1 b.1 hab.1 a.2 b.2 hab.2

/-- After a parser whose result does not depend on case. -/
theorem same {p p' : Parser α} (h : Alike Eq p p') {f : α → Parser γ} {g : α → Parser δ}
    (hfg : ∀ a, Alike S (f a) (g a)) : Alike S (p >>= f) (p' >>= g) :=
  h.bind fun a _ hab => hab ▸ hfg a

theorem get {f : Reader → Parser γ} {g : Reader → Parser δ}
    (hfg : ∀ r flags, r.Alike { r with flags } → Alike S (f r) (g { r with flags })) :
    Alike S (MonadState.get >>= f) (MonadState.get >>= g) := by
  rintro r _ ⟨flags, rfl, hflags⟩
  exact hfg r flags ⟨flags, rfl, hflags⟩ r _ ⟨flags, rfl, hflags⟩

theorem set {r s : Reader} (h : r.Alike s) (hpq : Alike R p q) :
    Alike R (MonadStateOf.set r >>= fun _ => p) (MonadStateOf.set s >>= fun _ => q) :=
  fun _ _ _ => hpq r s h

theorem modify {f g : Reader → Reader}
    (h : ∀ r flags, r.Alike { r with flags } → (f r).Alike (g { r with flags })) :
    Alike Eq (modifyThe Reader f) (modifyThe Reader g) := by
  rintro r _ ⟨flags, rfl, hflags⟩
  exact .ok ⟨rfl, h r flags ⟨flags, rfl, hflags⟩⟩

theorem ite {c : Prop} [Decidable c] (hp : c → Alike R p q) (hq : ¬c → Alike R p' q') :
    Alike R (if c then p else p') (if c then q else q') := by
  split
  · next h => exact hp h
  · next h => exact hq h

/-- After one of two parsers whose results do not depend on case. -/
theorem iteSame {c : Prop} [Decidable c] {p p' q q' : Parser α} (hp : c → Alike Eq p p')
    (hq : ¬c → Alike Eq q q') {f : α → Parser γ} {g : α → Parser δ} (hfg : ∀ a, Alike S (f a) (g a)) :
    Alike S (if c then p >>= f else q >>= f) (if c then p' >>= g else q' >>= g) :=
  ite (fun h => (hp h).same hfg) fun h => (hq h).same hfg

/-- After a parser that is left out under some condition. -/
theorem when {c : Prop} [Decidable c] {p p' : Parser Unit} (hp : c → Alike Eq p p') {f : Unit → Parser γ}
    {g : Unit → Parser δ} (hfg : ∀ a, Alike S (f a) (g a)) :
    Alike S (if c then p >>= f else f ()) (if c then p' >>= g else g ()) :=
  ite (fun h => (hp h).same hfg) fun _ => hfg ()

theorem map {f : α → γ} {g : β → δ} (h : Alike R p q) (hfg : ∀ a b, R a b → S (f a) (g b)) :
    Alike S (f <$> p) (g <$> q) := by
  rw [← bind_pure_comp, ← bind_pure_comp]
  exact h.bind fun a b hab => pure (hfg a b hab)

end Parser.Alike

open Winnow.Pattern.Parser

/-! ### Parts whose reading does not depend on flags -/

theorem alike_peek : Parser.Alike Eq peek peek := .get fun _ _ _ => .pure rfl

theorem alike_next? : Parser.Alike Eq next? next? := by
  refine .get fun r _ h => ?_
  dsimp only
  split
  · exact .pure rfl
  · exact .set h.parts <| .pure rfl

theorem alike_next : Parser.Alike Eq next next := by
  refine .same alike_next? fun c => ?_
  split
  · exact .pure rfl
  · exact .bad

theorem alike_accept (c : Char) : Parser.Alike Eq (accept c) (accept c) := by
  refine .get fun r _ h => ?_
  dsimp only
  split
  · exact .ite (fun _ => .set h.parts <| .pure rfl) fun _ => .pure rfl
  · exact .pure rfl

theorem alike_takeWhile (limit : Nat) (p : Char → Bool) :
    Parser.Alike Eq (takeWhile limit p) (takeWhile limit p) :=
  .get fun _ _ h => .set h.parts <| .pure rfl

theorem alike_takeUntil (stop : Char) : Parser.Alike Eq (takeUntil stop) (takeUntil stop) := by
  refine .get fun r _ h => ?_
  dsimp only
  split
  · exact .bad
  · exact .set h.parts <| .ite (fun _ => .bad) fun _ => .pure rfl

theorem alike_hexCode (n : Nat) : Parser.Alike Eq (hexCode n) (hexCode n) :=
  .same (alike_takeWhile n isHex) fun _ => .ite (fun _ => .pure rfl) fun _ => .bad

theorem alike_codeEscape? (c : Char) : Parser.Alike Eq (codeEscape? c) (codeEscape? c) := by
  unfold codeEscape?
  split
  · exact .same (alike_hexCode 2) fun _ => .pure rfl
  · exact .same (alike_hexCode 4) fun _ => .pure rfl
  · exact .same (alike_hexCode 8) fun _ => .ite (fun _ => .pure rfl) fun _ => .bad
  · exact .pure rfl

theorem alike_escapedSelf (c : Char) : Parser.Alike Eq (escapedSelf c) (escapedSelf c) :=
  .ite (fun _ => .bad) fun _ => .pure rfl

theorem alike_setEscape : Parser.Alike Eq setEscape setEscape := by
  refine .same alike_next fun c => ?_
  split
  · exact .pure rfl
  · exact .pure rfl
  refine .ite (fun _ => .pure rfl) fun _ => .ite (fun _ => ?_) fun _ => .ite (fun _ => .bad) fun _ => ?_
  · exact .same (alike_takeWhile 2 isOctal) fun _ => .ite (fun _ => .pure rfl) fun _ => .bad
  · refine .same (alike_codeEscape? c) fun n => ?_
    split
    · exact .pure rfl
    · exact .same (alike_escapedSelf c) fun _ => .pure rfl

theorem alike_setMember (c : Char) : Parser.Alike Eq (setMember c) (setMember c) :=
  .ite (fun _ => alike_setEscape) fun _ => .pure rfl

theorem alike_setMembers (fuel : Nat) (found : List Member) :
    Parser.Alike Eq (setMembers fuel found) (setMembers fuel found) := by
  induction fuel generalizing found with
  | zero => exact .bad
  | succ fuel ih =>
    refine .same alike_next fun c => .ite (fun _ => .pure rfl) fun _ =>
      .same (alike_setMember c) fun first => ?_
    refine .same (alike_accept _) fun ranged => .ite (fun _ => .same alike_next fun d => ?_) fun _ => ih _
    refine .ite (fun _ => .pure rfl) fun _ => .same (alike_setMember d) fun last => ?_
    split
    · exact .ite (fun _ => .bad) fun _ => ih _
    · exact .bad

theorem alike_count (digits : List Char) : Parser.Alike Eq (count digits) (count digits) :=
  .ite (fun _ => .pure rfl) fun _ => .throw _

theorem alike_bounds? : Parser.Alike Eq bounds? bounds? := by
  refine .get fun start _ h => .ite (fun _ => .pure rfl) fun _ => ?_
  refine .same (alike_takeWhile _ _) fun lo => .same (alike_accept _) fun comma => ?_
  refine .iteSame (fun _ => alike_takeWhile _ _) (fun _ => .pure rfl) fun hi => ?_
  refine .same (alike_accept _) fun closed => .ite (fun _ => ?_) fun _ => .set h (.pure rfl)
  refine .iteSame (fun _ => .pure rfl) (fun _ => alike_count lo) fun least => ?_
  refine .iteSame (fun _ => .pure rfl) (fun _ => .map (alike_count hi) fun _ _ h => h ▸ rfl) fun most => ?_
  exact .ite (fun _ => .bad) fun _ => .pure rfl

/-- The bits of a flag letter, added to others. -/
theorem isBit_insert {c : Char} {bit : Nat} (hbit : flagBit? c = some bit) {bits : List Nat}
    (h : ∀ n ∈ bits, IsBit n) :
    ∀ n ∈ (if bits.contains bit then bits else bits ++ [bit]), IsBit n := by
  split
  · exact h
  · intro n hn
    rcases List.mem_append.1 hn with hn | hn
    · exact h n hn
    · exact List.mem_singleton.1 hn ▸ isBit_of_flagBit? hbit

theorem alike_addedFlags (fuel : Nat) (c : Char) {bits : List Nat} (h : ∀ n ∈ bits, IsBit n) :
    Parser.Alike (fun a b => a = b ∧ ∀ n ∈ a.1, IsBit n) (addedFlags fuel c bits)
      (addedFlags fuel c bits) := by
  induction fuel generalizing c bits with
  | zero => exact .bad
  | succ fuel ih =>
    unfold addedFlags
    split
    · exact .bad
    · next bit hbit =>
      refine .ite (fun _ => .bad) fun _ => .ite (fun _ => .bad) fun _ => .same alike_next fun d => ?_
      exact .ite (fun _ => .pure ⟨rfl, isBit_insert hbit h⟩) fun _ => ih d (isBit_insert hbit h)

theorem alike_removedFlags (fuel : Nat) (c : Char) {bits : List Nat} (h : ∀ n ∈ bits, IsBit n) :
    Parser.Alike (fun a b => a = b ∧ ∀ n ∈ a, IsBit n) (removedFlags fuel c bits)
      (removedFlags fuel c bits) := by
  induction fuel generalizing c bits with
  | zero => exact .bad
  | succ fuel ih =>
    unfold removedFlags
    split
    · exact .bad
    · next bit hbit =>
      refine .ite (fun _ => .bad) fun _ => .same alike_next fun d => ?_
      exact .ite (fun _ => .pure ⟨rfl, isBit_insert hbit h⟩) fun _ => ih d (isBit_insert hbit h)

theorem alike_flagsAfterMinus :
    Parser.Alike (fun a b => a = b ∧ ∀ n ∈ a, IsBit n) flagsAfterMinus flagsAfterMinus :=
  .same alike_next fun c => .get fun _ _ _ => alike_removedFlags _ c fun _ hn => nomatch hn

theorem alike_flagsAfterAdded {flags flags' : Int} (hflags : SameButCase flags flags') {added : List Nat}
    (hadded : ∀ n ∈ added, IsBit n) (stop : Char) :
    Parser.Alike (Option.Rel SameButCase) (flagsAfterAdded flags added stop)
      (flagsAfterAdded flags' added stop) := by
  refine .ite (fun _ => ?_) fun _ => .ite (fun _ => .bad) fun _ => ?_
  · exact .same (.modify fun r s h => ⟨_, rfl, h.flags.setFlags hadded⟩) fun _ => .pure .none
  have combined (removed removed' : List Nat) (h : removed = removed' ∧ ∀ n ∈ removed, IsBit n) :
      Parser.Alike (Option.Rel SameButCase)
        (if removed.contains 1 ∨ added.any removed.contains then bad
          else return some (combineFlags flags added removed))
        (if removed'.contains 1 ∨ added.any removed'.contains then bad
          else return some (combineFlags flags' added removed')) := by
    obtain ⟨rfl, hremoved⟩ := h
    exact .ite (fun _ => .bad) fun _ => .pure (.some (hflags.combineFlags hadded hremoved))
  refine .ite (fun _ => .bind alike_flagsAfterMinus combined) fun _ => .bind (.pure ⟨rfl, ?_⟩) combined
  exact fun _ hn => nomatch hn

theorem alike_groupFlags? {flags flags' : Int} (hflags : SameButCase flags flags') (c : Char) :
    Parser.Alike (Option.Rel SameButCase) (groupFlags? flags c) (groupFlags? flags' c) := by
  have hnone : ∀ n ∈ ([] : List Nat), IsBit n := fun _ hn => nomatch hn
  refine .ite (fun _ => alike_flagsAfterAdded hflags hnone _) fun _ => .get fun r _ _ => ?_
  refine .bind (alike_addedFlags _ c hnone) fun a b ⟨hab, hadded⟩ => ?_
  subst hab
  exact alike_flagsAfterAdded hflags hadded a.2

theorem alike_openGroup (name : Option String) : Parser.Alike Eq (openGroup name) (openGroup name) := by
  refine .get fun r _ h => ?_
  dsimp only
  split
  · exact .iteSame (fun _ => .bad) (fun _ => .set h.parts (.pure rfl)) fun _ => .pure rfl
  · exact .set h.parts (.pure rfl)

theorem alike_closeParenthesis : Parser.Alike Eq closeParenthesis closeParenthesis :=
  .same (alike_accept _) fun _ => .ite (fun _ => .pure rfl) fun _ => .bad

theorem alike_checkLookbehind (g : Nat) : Parser.Alike Eq (checkLookbehind g) (checkLookbehind g) := by
  refine .get fun r _ _ => ?_
  dsimp only
  split
  · exact .pure rfl
  · exact .ite (fun _ => .pure rfl) fun _ => .bad

theorem alike_conditionGroup : Parser.Alike Eq conditionGroup conditionGroup := by
  have checked (g : Nat) :
      Parser.Alike Eq (do checkLookbehind g; return g) (do checkLookbehind g; return g) :=
    .same (alike_checkLookbehind g) fun _ => .pure rfl
  refine .same (alike_takeUntil _) fun name => .ite (fun _ => .get fun r _ _ => ?_) fun _ => ?_
  · dsimp only
    split
    · exact .same (.pure rfl) checked
    · exact .same .bad checked
  · dsimp only
    split
    · refine .ite (fun _ => .same .bad checked) fun _ => .same (.modify fun _ _ h => h.parts) fun _ => ?_
      exact .same (.pure rfl) checked
    · exact .same .bad checked

theorem alike_skipComment : Parser.Alike Eq skipComment skipComment := by
  refine .get fun r _ h => ?_
  dsimp only
  split
  · exact .bad
  · exact .set h.parts (.pure rfl)

theorem alike_skipLine : Parser.Alike Eq skipLine skipLine :=
  .modify fun _ _ h => h.parts

/-! ### Items -/

theorem alike_referenceTo (mode mode' : Mode) (g : Nat) :
    Parser.Alike Tree.Alike (referenceTo mode g) (referenceTo mode' g) := by
  refine .get fun r _ _ => .ite (fun _ => ?_) fun _ => .bad
  exact .same (alike_checkLookbehind g) fun _ => .pure ⟨fun _ => rfl, rfl, rfl⟩

theorem alike_numericEscape (mode mode' : Mode) (c : Char) :
    Parser.Alike Tree.Alike (numericEscape mode c) (numericEscape mode' c) := by
  have reference (n : Nat) :
      Parser.Alike Tree.Alike (do if n < groupCount (← get) then referenceTo mode n else bad)
      (do if n < groupCount (← get) then referenceTo mode' n else bad) :=
    .get fun _ _ _ => .ite (fun _ => alike_referenceTo mode mode' n) fun _ => .bad
  refine .ite (fun _ => .same (alike_takeWhile _ _) fun more => .pure ⟨fun _ => rfl, rfl, rfl⟩) fun _ => ?_
  refine .same (alike_takeWhile _ _) fun second => ?_
  split
  · refine .iteSame (fun _ => alike_takeWhile _ _) (fun _ => .pure rfl) fun third => ?_
    dsimp only
    split
    · exact .ite (fun _ => .pure ⟨fun _ => rfl, rfl, rfl⟩) fun _ => .bad
    · exact reference _
  · exact reference _

theorem alike_escape (mode mode' : Mode) : Parser.Alike Tree.Alike (escape mode) (escape mode') := by
  refine .same alike_next fun c => ?_
  split
  · exact .pure ⟨fun _ => rfl, rfl, rfl⟩
  · exact .pure ⟨fun _ => rfl, rfl, rfl⟩
  · exact .pure ⟨fun _ => rfl, rfl, rfl⟩
  refine .ite (fun _ => alike_numericEscape mode mode' c) fun _ => .same (alike_codeEscape? c) fun n => ?_
  split
  · exact .pure ⟨fun _ => rfl, rfl, rfl⟩
  · exact .same (alike_escapedSelf c) fun _ => .pure ⟨fun _ => rfl, rfl, rfl⟩

theorem alike_characterSet (mode mode' : Mode) :
    Parser.Alike Tree.Alike (characterSet mode) (characterSet mode') := by
  refine .same (alike_accept _) fun negated => .get fun r _ _ =>
    .same (alike_setMembers _ _) fun members => ?_
  split <;> exact .pure ⟨fun _ => rfl, rfl, rfl⟩

theorem alike_simpleItem (mode mode' : Mode) (c : Char) :
    Parser.Alike Tree.Alike (simpleItem mode c) (simpleItem mode' c) := by
  unfold simpleItem
  split
  · exact alike_escape mode mode'
  · exact alike_characterSet mode mode'
  all_goals exact .pure ⟨fun _ => rfl, rfl, rfl⟩

theorem alike_repeatLast {ts us : List Tree} (h : TreesAlike ts us) (least : Nat) (most : Option Nat) :
    Parser.Alike TreesAlike (repeatLast ts least most) (repeatLast us least most) := by
  cases h with
  | nil => exact .bad
  | @cons t u ts us htu h =>
    have repeated (greed : Greed) :
        TreesAlike (.repeated t least most greed :: ts) (.repeated u least most greed :: us) :=
      .cons ⟨fun groups => by rw [Tree.width, Tree.width, htu.width], rfl, rfl⟩ h
    have htail : Parser.Alike TreesAlike
        (do
          if ← accept '?' then return .repeated t least most .lazy :: ts
          if ← accept '+' then return .repeated t least most .possessive :: ts
          return .repeated t least most .greedy :: ts)
        (do
          if ← accept '?' then return .repeated u least most .lazy :: us
          if ← accept '+' then return .repeated u least most .possessive :: us
          return .repeated u least most .greedy :: us) := by
      refine .same (alike_accept _) fun _ => .ite (fun _ => .pure (repeated _)) fun _ => ?_
      exact .same (alike_accept _) fun _ => .ite (fun _ => .pure (repeated _)) fun _ => .pure (repeated _)
    have hkind := htu.isRepeatable
    cases t <;> cases u <;> first | exact htail | exact .bad | cases hkind

/-! ### Groups -/

theorem alike_closeGroup (g : Nat) {body body' : Tree} (h : body.Alike body') :
    Parser.Alike Eq (closeGroup g body) (closeGroup g body') := by
  refine .modify fun r flags hr => ?_
  rw [h.width]
  exact hr.parts

theorem alike_lookTree (ahead negated : Bool) {body body' : Tree} (h : body.Alike body') :
    Parser.Alike Tree.Alike (lookTree ahead negated body) (lookTree ahead negated body') := by
  refine .get fun r _ _ => ?_
  rw [h.width]
  refine .ite (fun _ => .pure ⟨fun _ => rfl, h.repeats, rfl⟩) fun _ => ?_
  refine .when (fun _ => .modify fun _ _ hr => hr.parts) fun _ => ?_
  exact .pure ⟨fun _ => rfl, h.repeats, rfl⟩

theorem branch_width (groups : Nat → Width) {alternatives alternatives' : List (List Tree)}
    (h : List.Forall₂ TreesAlike alternatives alternatives') :
    Tree.width.widest groups (alternatives.map .sequence) =
      Tree.width.widest groups (alternatives'.map .sequence) := by
  induction h with
  | nil => rfl
  | @cons items items' rest rest' hfirst hrest ih =>
    have hwidth : (Tree.sequence items).width groups = (Tree.sequence items').width groups :=
      hfirst.total groups
    cases hrest with
    | nil => exact hwidth
    | cons hsecond hmore =>
      exact (congrArg₂ Width.join hwidth ih)

theorem branch_repeats {alternatives alternatives' : List (List Tree)}
    (h : List.Forall₂ TreesAlike alternatives alternatives') :
    Tree.repeats.anyRepeats (alternatives.map .sequence) =
      Tree.repeats.anyRepeats (alternatives'.map .sequence) := by
  induction h with
  | nil => rfl
  | cons hfirst _ ih =>
    rw [List.map_cons, List.map_cons, Tree.repeats.anyRepeats, Tree.repeats.anyRepeats, ih,
      hfirst.sequence.repeats]

theorem joined_alike {first first' : List Tree} {more more' : List (List Tree)}
    (hfirst : TreesAlike first first') (hmore : List.Forall₂ TreesAlike more more') :
    (joinAlternatives first.length [] (first :: more)).Alike
      (joinAlternatives first'.length [] (first' :: more')) := by
  obtain ⟨hwidth, hrepeats, hkind⟩ := joinAlternatives_alike first.length [] (List.cons_ne_nil first more)
  obtain ⟨hwidth', hrepeats', hkind'⟩ :=
    joinAlternatives_alike first'.length [] (List.cons_ne_nil first' more')
  have hall := List.Forall₂.cons hfirst hmore
  refine ⟨fun groups => ?_, ?_, hkind.trans hkind'.symm⟩
  · rw [hwidth, hwidth']
    exact congrArg (Width.add · _) (branch_width groups hall)
  · rw [hrepeats, hrepeats']
    exact congrArg (· || _) (branch_repeats hall)

/-- Do the readers of groups and items go on alike, with fuel for a number of steps? -/
structure AlikeWithin (fuel : Nat) : Prop where
  branches {flags flags' : Int} (h : SameButCase flags flags') (outermost : Bool) :
    Parser.Alike Tree.Alike (branches fuel flags outermost) (branches fuel flags' outermost)
  moreBranches {flags flags' : Int} (h : SameButCase flags flags') (outermost : Bool) :
    Parser.Alike (List.Forall₂ TreesAlike) (moreBranches fuel flags outermost)
      (moreBranches fuel flags' outermost)
  items {flags flags' : Int} (h : SameButCase flags flags') (atStart : Bool) {found found' : List Tree}
    (hfound : TreesAlike found found') :
    Parser.Alike TreesAlike (items fuel flags atStart found) (items fuel flags' atStart found')
  capture {flags flags' : Int} (h : SameButCase flags flags') (name : Option String) :
    Parser.Alike Tree.Alike (capture fuel flags name) (capture fuel flags' name)
  extension {flags flags' : Int} (h : SameButCase flags flags') (c : Char) :
    Parser.Alike Tree.Alike (extension fuel flags c) (extension fuel flags' c)
  lookaround {flags flags' : Int} (h : SameButCase flags flags') (ahead negated : Bool) :
    Parser.Alike Tree.Alike (lookaround fuel flags ahead negated) (lookaround fuel flags' ahead negated)

namespace AlikeWithin

variable {fuel : Nat} (ih : AlikeWithin fuel) {flags flags' : Int} (h : SameButCase flags flags')

include ih h

theorem branches_succ (outermost : Bool) :
    Parser.Alike Tree.Alike (Pattern.branches (fuel + 1) flags outermost)
      (Pattern.branches (fuel + 1) flags' outermost) := by
  rw [Pattern.branches, Pattern.branches]
  refine .bind (ih.items h outermost .nil) fun first first' hfirst => .get fun r inner hr => ?_
  have hinner : SameButCase (if outermost then r.flags else flags) (if outermost then inner else flags') := by
    split
    · exact hr.flags
    · exact h
  refine .bind (ih.moreBranches hinner outermost) fun more more' hmore => .pure ?_
  cases hmore with
  | nil => exact hfirst.sequence
  | cons hsecond hrest => exact joined_alike hfirst (.cons hsecond hrest)

theorem moreBranches_succ (outermost : Bool) :
    Parser.Alike (List.Forall₂ TreesAlike) (Pattern.moreBranches (fuel + 1) flags outermost)
      (Pattern.moreBranches (fuel + 1) flags' outermost) := by
  rw [Pattern.moreBranches, Pattern.moreBranches]
  refine .same (alike_accept _) fun _ => .ite (fun _ => ?_) fun _ => .pure .nil
  refine .bind (ih.items h false .nil) fun t t' ht => ?_
  exact .bind (ih.moreBranches h outermost) fun more more' hmore => .pure (.cons ht hmore)

theorem capture_succ (name : Option String) :
    Parser.Alike Tree.Alike (Pattern.capture (fuel + 1) flags name)
      (Pattern.capture (fuel + 1) flags' name) := by
  rw [Pattern.capture, Pattern.capture]
  refine .same (alike_openGroup name) fun g => .bind (ih.branches h false) fun body body' hbody => ?_
  refine .same alike_closeParenthesis fun _ => .same (alike_closeGroup g hbody) fun _ => .pure ?_
  exact ⟨hbody.width, hbody.repeats, rfl⟩

theorem lookaround_succ (ahead negated : Bool) :
    Parser.Alike Tree.Alike (Pattern.lookaround (fuel + 1) flags ahead negated)
      (Pattern.lookaround (fuel + 1) flags' ahead negated) := by
  rw [Pattern.lookaround, Pattern.lookaround]
  refine .get fun r _ _ => ?_
  refine .when (fun _ => .modify fun _ _ hr => hr.parts) fun _ => ?_
  refine .bind (ih.branches h false) fun body body' hbody =>
    .same (.modify fun _ _ hr => hr.parts) fun _ => ?_
  exact .same alike_closeParenthesis fun _ => alike_lookTree ahead negated hbody

theorem extension_succ (c : Char) :
    Parser.Alike Tree.Alike (Pattern.extension (fuel + 1) flags c)
      (Pattern.extension (fuel + 1) flags' c) := by
  unfold Pattern.extension
  split
  · refine .same (alike_accept _) fun _ => .ite (fun _ => ?_) fun _ => ?_
    · exact .same (alike_takeUntil _) fun name => .ite (fun _ => ih.capture h _) fun _ => .bad
    · refine .same (alike_accept _) fun _ => .ite (fun _ => ?_) fun _ => .bad
      refine .same (alike_takeUntil _) fun name => .get fun r _ _ => ?_
      dsimp only
      split
      · exact alike_referenceTo _ _ _
      · exact .bad
  · refine .bind (ih.branches h false) fun body body' hbody => .same alike_closeParenthesis fun _ => .pure ?_
    exact ⟨hbody.width, hbody.repeats, rfl⟩
  · refine .bind (ih.branches h false) fun body body' hbody => .same alike_closeParenthesis fun _ => .pure ?_
    exact ⟨hbody.width, hbody.repeats, rfl⟩
  · exact ih.lookaround h true false
  · exact ih.lookaround h true true
  · refine .same (alike_accept _) fun _ => .ite (fun _ => ih.lookaround h false false) fun _ => ?_
    exact .same (alike_accept _) fun _ => .ite (fun _ => ih.lookaround h false true) fun _ => .bad
  · refine .same alike_conditionGroup fun g => .bind (ih.items h false .nil) fun yes yes' hyes => ?_
    have joined (no no' : List Tree) (hno : TreesAlike no no') :
        Parser.Alike Tree.Alike (do closeParenthesis; return .conditional g (.sequence yes) (.sequence no))
          (do closeParenthesis; return .conditional g (.sequence yes') (.sequence no')) := by
      refine .same alike_closeParenthesis fun _ => .pure ⟨fun groups => ?_, ?_, rfl⟩
      · simp only [Tree.width, hyes.total groups, hno.total groups]
      · simp only [Tree.repeats, hyes.anyRepeats, hno.anyRepeats]
    refine .same (alike_accept _) fun _ => .ite (fun _ => ?_) fun _ => ?_
    · exact .bind (ih.items h false .nil) joined
    · exact .bind (.pure .nil) joined
  · exact .bad

theorem items_succ (atStart : Bool) {found found' : List Tree} (hfound : TreesAlike found found') :
    Parser.Alike TreesAlike (Pattern.items (fuel + 1) flags atStart found)
      (Pattern.items (fuel + 1) flags' atStart found') := by
  have hverbose : hasFlag flags Pattern.verbose = hasFlag flags' Pattern.verbose := h 6 (by decide)
  have repeated (least : Nat) (most : Option Nat) : Parser.Alike TreesAlike
      (do Pattern.items fuel flags atStart (← repeatLast found least most))
      (do Pattern.items fuel flags' atStart (← repeatLast found' least most)) :=
    .bind (alike_repeatLast hfound least most) fun ts us hts => ih.items h atStart hts
  have added (t t' : Tree) (ht : t.Alike t') : Parser.Alike TreesAlike
      (Pattern.items fuel flags atStart (t :: found)) (Pattern.items fuel flags' atStart (t' :: found')) :=
    ih.items h atStart (.cons ht hfound)
  rw [Pattern.items, Pattern.items]
  refine .same alike_peek fun c => ?_
  split
  · exact .pure (List.rel_reverse hfound)
  · exact .pure (List.rel_reverse hfound)
  · exact .pure (List.rel_reverse hfound)
  refine .same alike_next fun c => ?_
  rw [hverbose]
  refine .ite (fun _ => ih.items h atStart hfound) fun _ => .ite (fun _ => ?_) fun _ => ?_
  · exact .same alike_skipLine fun _ => ih.items h atStart hfound
  refine .ite (fun _ => repeated 0 none) fun _ => .ite (fun _ => repeated 1 none) fun _ => ?_
  refine .ite (fun _ => repeated 0 (some 1)) fun _ =>
    .ite (fun _ => .same alike_bounds? fun bounds => ?_) fun _ => ?_
  · split
    · exact repeated _ _
    · exact added _ _ ⟨fun _ => rfl, rfl, rfl⟩
  refine .ite (fun _ => .same (alike_accept _) fun _ => .ite (fun _ => ?_) fun _ => ?_) fun _ => ?_
  · refine .same alike_next fun c => .ite (fun _ => ?_) fun _ => .ite (fun _ => ?_) fun _ => ?_
    · exact .same alike_skipComment fun _ => ih.items h atStart hfound
    · refine .bind (alike_groupFlags? h c) fun inner inner' hinner => ?_
      cases hinner with
      | none =>
        have hempty : found.isEmpty = found'.isEmpty := by cases hfound <;> rfl
        dsimp only
        rw [hempty]
        exact .ite (fun _ => .get fun r _ hr => ih.items hr.flags atStart hfound) fun _ => .bad
      | some hinner =>
        refine .bind (ih.branches hinner false) fun body body' hbody =>
          .same alike_closeParenthesis fun _ => ?_
        exact added _ _ ⟨hbody.width, hbody.repeats, rfl⟩
    · exact .bind (ih.extension h c) added
  · exact .bind (ih.capture h none) added
  · exact .bind (alike_simpleItem _ _ c) added

end AlikeWithin

theorem alikeWithin (fuel : Nat) : AlikeWithin fuel := by
  induction fuel with
  | zero =>
    exact ⟨fun _ _ => .bad, fun _ _ => .bad, fun _ _ _ _ _ => .bad, fun _ _ => .bad, fun _ _ => .bad,
      fun _ _ _ => .bad⟩
  | succ fuel ih =>
    exact ⟨ih.branches_succ, ih.moreBranches_succ, ih.items_succ, ih.capture_succ, ih.extension_succ,
      ih.lookaround_succ⟩

/-! ## Sources -/

theorem finishFlags_alike {flags flags' : Int} (h : SameButCase flags flags') :
    Outcome.Both SameButCase (finishFlags flags) (finishFlags flags') := by
  unfold finishFlags
  have hlocale : hasFlag flags Pattern.locale = hasFlag flags' Pattern.locale := h 2 (by decide)
  have hascii : hasFlag flags Pattern.ascii = hasFlag flags' Pattern.ascii := h 8 (by decide)
  have hunicode : hasFlag flags Pattern.unicode = hasFlag flags' Pattern.unicode := h 5 (by decide)
  rw [hlocale, hascii, hunicode]
  exact .ite Iff.rfl (.error _)
    (.ite Iff.rfl (.ite Iff.rfl (.error _) (.ok h)) (.ok (SameButCase.setFlag (j := 5) h)))

/-- Two readings of a source whose flags differ at most in whether case is ignored fail alike or find the same
groups. -/
theorem parse_alike (source : String) {flags flags' : Int} (h : SameButCase flags flags') :
    Outcome.Both
      (fun p q => p.tree.Alike q.tree ∧ SameButCase p.flags q.flags ∧ p.groups = q.groups ∧
        p.names = q.names)
      (parse source flags) (parse source flags') := by
  have hread := (alikeWithin (3 * source.toList.length + 3)).branches h true _ _
    (⟨flags', rfl, h⟩ : Reader.Alike ⟨source.toList, flags, [], [], none, [], false⟩ _)
  unfold parse
  refine hread.bind fun a b hab => ?_
  obtain ⟨tree, r⟩ := a
  obtain ⟨tree', s⟩ := b
  obtain ⟨htree, flags'', rfl, hflags⟩ := hab
  refine (finishFlags_alike hflags).bind fun final final' hfinal => ?_
  have htemplate : hasFlag final Pattern.template = hasFlag final' Pattern.template := hfinal 0 (by decide)
  rw [htemplate, htree.repeats]
  exact .ite Iff.rfl (.error _) (.ite Iff.rfl (.error _) (.ok ⟨htree, hfinal, rfl, rfl⟩))

/-- A source fails to compile for the same reason whether case is ignored or not. -/
theorem compile_error_iff (source : String) {flags flags' : Int} (h : SameButCase flags flags')
    {e : ParseError} :
    compile source flags = .error e ↔ compile source flags' = .error e := by
  have hparse := (parse_alike source h).error_iff (e := e)
  unfold compile
  rcases hp : parse source flags with a | a <;> rcases hq : parse source flags' with b | b <;> simp_all

end Winnow.Pattern
