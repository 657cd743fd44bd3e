import Winnow.Proofs.Pattern.IgnoreCase
import Winnow.Proofs.Pattern.Safety
/-! # What readers of patterns take

A reader of patterns takes a beginning of what is left to read. `Reads` relates what it comes to and the text it
takes; of most readers of single parts it only matters that they take some text. -/

namespace Winnow.Pattern

variable {α β : Type} {a : α} {start r : Reader} {c : Char} {taken w : List Char}

/-- Whenever it comes to a result, does the reader take a text that is related to it? -/
def Parser.Reads (p : Parser α) (P : α → List Char → Prop) : Prop :=
  ∀ r a s, p.run r = .ok (a, s) → ∃ w, r.rest = w ++ s.rest ∧ P a w

/-- The same for a reader that goes on behind a text taken since some start, to which it may go back. -/
def Parser.ReadsSince (start : Reader) (taken : List Char) (p : Parser α) (P : α → List Char → Prop) : Prop :=
  ∀ r, start.rest = taken ++ r.rest → ∀ a s, p.run r = .ok (a, s) → ∃ w, start.rest = w ++ s.rest ∧ P a w

variable {p p' : Parser α} {P P' : α → List Char → Prop} {f : α → Parser β} {Q : β → List Char → Prop}

namespace Parser.ReadsSince

theorem pureOf (h : ∀ rest, start.rest = taken ++ rest → P a taken) :
    ReadsSince start taken (Pure.pure a) P := by
  rintro r hr _ _ ⟨⟩
  exact ⟨taken, hr, h r.rest hr⟩

theorem pure (h : P a taken) : ReadsSince start taken (Pure.pure a) P := pureOf fun _ _ => h

theorem bad : ReadsSince start taken Parser.bad P := nofun

theorem bind (h : p.Reads P) (hf : ∀ a w, P a w → ReadsSince start (taken ++ w) (f a) Q) :
    ReadsSince start taken (p >>= f) Q := by
  intro r hr b s hrun
  rw [StateT.run_bind] at hrun
  rcases hp : p.run r with e | ⟨a, r'⟩ <;> rw [hp] at hrun
  · cases hrun
  obtain ⟨w, hw, ha⟩ := h r a r' hp
  exact hf a w ha r' (by rw [hr, hw, List.append_assoc]) b s hrun

theorem set (hw : start.rest = w ++ r.rest) (h : ReadsSince start w p P) :
    ReadsSince start taken (MonadStateOf.set r >>= fun _ => p) P :=
  fun _ _ a s hrun => h r hw a s hrun

theorem ite {c : Prop} [Decidable c] (hp : c → ReadsSince start taken p P)
    (hp' : ¬c → ReadsSince start taken p' P) : ReadsSince start taken (if c then p else p') P := by
  split
  · next h => exact hp h
  · next h => exact hp' h

/-- After one of two readers. -/
theorem iteBind {c : Prop} [Decidable c] (hp : c → p.Reads P) (hp' : ¬c → p'.Reads P)
    (hf : ∀ a w, P a w → ReadsSince start (taken ++ w) (f a) Q) :
    ReadsSince start taken (if c then p >>= f else p' >>= f) Q :=
  ite (fun h => bind (hp h) hf) fun h => bind (hp' h) hf

end Parser.ReadsSince

namespace Parser.Reads

theorem mono (h : Reads p P) (hP : ∀ a w, P a w → P' a w) : Reads p P' := by
  intro r a s hrun
  obtain ⟨w, hw, ha⟩ := h r a s hrun
  exact ⟨w, hw, hP a w ha⟩

theorem pure (h : P a []) : Reads (Pure.pure a) P := by
  rintro r _ _ ⟨⟩
  exact ⟨[], rfl, h⟩

theorem bad : Reads Parser.bad P := nofun

theorem throw (e : ParseError) : Reads (MonadExcept.throw e) P := nofun

theorem bind (h : Reads p P) (hf : ∀ a w, P a w → Reads (f a) fun b v => Q b (w ++ v)) : Reads (p >>= f) Q := by
  intro r b s hrun
  rw [StateT.run_bind] at hrun
  rcases hp : p.run r with e | ⟨a, r'⟩ <;> rw [hp] at hrun
  · cases hrun
  obtain ⟨w, hw, ha⟩ := h r a r' hp
  obtain ⟨v, hv, hb⟩ := hf a w ha r' b s hrun
  exact ⟨w ++ v, by rw [hw, hv, List.append_assoc], hb⟩

theorem map {g : α → β} (h : Reads p P) (hg : ∀ a w, P a w → Q (g a) w) : Reads (g <$> p) Q := by
  rw [← bind_pure_comp]
  exact h.bind fun a w ha => pure (by rw [List.append_nil]; exact hg a w ha)

/-- After a reader of which it only matters that it takes some text. -/
theorem after (h : Reads p fun _ _ => True) (hf : ∀ a w, Reads (f a) fun b v => Q b (w ++ v)) :
    Reads (p >>= f) Q := h.bind fun a w _ => hf a w

/-- After a reader that takes nothing. -/
theorem idle (h : Reads p fun _ w => w = []) (hf : ∀ a, Reads (f a) Q) : Reads (p >>= f) Q :=
  h.bind fun a _ hw => hw ▸ hf a

theorem get {f : Reader → Parser β} (hf : ∀ r, Reads (f r) Q) : Reads (MonadState.get >>= f) Q :=
  fun r b s hrun => hf r r b s hrun

theorem getSince {f : Reader → Parser β} (hf : ∀ start, ReadsSince start [] (f start) Q) :
    Reads (MonadState.get >>= f) Q :=
  fun r b s hrun => hf r r rfl b s hrun

/-- What a reader knows beside the text left to read may change at any time. -/
theorem modify {g : Reader → Reader} {P : Unit → List Char → Prop} (h : ∀ r, (g r).rest = r.rest) (hP : P () []) :
    Reads (modifyThe Reader g) P := by
  rintro r _ _ ⟨⟩
  exact ⟨[], (h r).symm, hP⟩

theorem ite {c : Prop} [Decidable c] (hp : c → Reads p P) (hp' : ¬c → Reads p' P) :
    Reads (if c then p else p') P := by
  split
  · next h => exact hp h
  · next h => exact hp' h

/-- After one of two readers. -/
theorem iteBind {c : Prop} [Decidable c] (hp : c → Reads p P) (hp' : ¬c → Reads p' P)
    (hf : ∀ a w, P a w → Reads (f a) fun b v => Q b (w ++ v)) :
    Reads (if c then p >>= f else p' >>= f) Q :=
  ite (fun h => (hp h).bind hf) fun h => (hp' h).bind hf

/-- After a reader that is left out under some condition. -/
theorem when {c : Prop} [Decidable c] {p : Parser Unit} {f : Unit → Parser β}
    (hp : c → Reads p fun _ w => w = []) (hf : Reads (f ()) Q) : Reads (if c then p >>= f else f ()) Q :=
  ite (fun h => (hp h).idle fun _ => hf) fun _ => hf

end Parser.Reads

open Winnow.Pattern.Parser

/-- Does the reader take some text, whatever it comes to? -/
abbrev Parser.Takes (p : Parser α) : Prop := p.Reads fun _ _ => True

/-! ## Characters -/

theorem reads_peek : peek.Reads fun _ w => w = [] := .get fun _ => .pure rfl

theorem reads_next? : next?.Reads fun c w => w = c.toList := by
  refine .getSince fun r => ?_
  split
  · exact .pure rfl
  · next hrest => exact .set (w := [_]) hrest (.pure rfl)

theorem reads_next : next.Reads fun c w => w = [c] := by
  refine .bind reads_next? fun c w hw => ?_
  split
  · exact .pure (by simpa using hw)
  · exact .bad

theorem reads_accept (c : Char) : (accept c).Reads fun b w => w = if b then [c] else [] := by
  refine .getSince fun r => ?_
  split
  · next hrest =>
    refine .ite (fun hc => .set (w := [c]) ?_ (.pure rfl)) fun _ => .pure rfl
    rw [hrest, hc]
    rfl
  · exact .pure rfl

theorem takeWhile_append_drop (rest : List Char) (limit : Nat) (p : Char → Bool) :
    rest = (rest.take limit).takeWhile p ++ rest.drop ((rest.take limit).takeWhile p).length :=
  List.prefix_iff_eq_append.1 ((List.takeWhile_prefix p).trans (List.take_prefix limit rest)) |>.symm

theorem reads_takeWhile (limit : Nat) (p : Char → Bool) :
    (takeWhile limit p).Reads fun ds w => w = ds ∧ ∀ d ∈ ds, p d = true := by
  refine .getSince fun r => .set (takeWhile_append_drop r.rest limit p) (.pure ?_)
  exact ⟨rfl, List.all_eq_true.1 List.all_takeWhile⟩

theorem takes_takeWhile (limit : Nat) (p : Char → Bool) : (takeWhile limit p).Takes :=
  (reads_takeWhile limit p).mono fun _ _ _ => trivial

theorem takes_accept (c : Char) : (accept c).Takes := (reads_accept c).mono fun _ _ _ => trivial

theorem takes_next : next.Takes := reads_next.mono fun _ _ _ => trivial

theorem takes_takeUntil (stop : Char) : (takeUntil stop).Takes := by
  refine .getSince fun r => ?_
  dsimp only
  split
  · exact .bad
  · next d rest hrest =>
    have hsplit := (List.prefix_iff_eq_append.1 (List.takeWhile_prefix (l := r.rest) (· ≠ stop))).symm
    rw [hrest, List.append_cons] at hsplit
    exact .set hsplit (.ite (fun _ => .bad) fun _ => .pure trivial)

/-! ## Escapes and sets -/

theorem takes_hexCode (n : Nat) : (hexCode n).Takes :=
  .after (takes_takeWhile n isHex) fun _ _ => .ite (fun _ => .pure trivial) fun _ => .bad

theorem takes_codeEscape? (c : Char) : (codeEscape? c).Takes := by
  unfold codeEscape?
  split
  · exact .after (takes_hexCode 2) fun _ _ => .pure trivial
  · exact .after (takes_hexCode 4) fun _ _ => .pure trivial
  · exact .after (takes_hexCode 8) fun _ _ => .ite (fun _ => .pure trivial) fun _ => .bad
  · exact .pure trivial

theorem takes_escapedSelf (c : Char) : (escapedSelf c).Takes := .ite (fun _ => .bad) fun _ => .pure trivial

theorem takes_setEscape : setEscape.Takes := by
  refine .after takes_next fun c _ => ?_
  split
  · exact .pure trivial
  · exact .pure trivial
  refine .ite (fun _ => .pure trivial) fun _ => .ite (fun _ => ?_) fun _ => .ite (fun _ => .bad) fun _ => ?_
  · exact .after (takes_takeWhile 2 isOctal) fun _ _ => .ite (fun _ => .pure trivial) fun _ => .bad
  · refine .after (takes_codeEscape? c) fun n _ => ?_
    split
    · exact .pure trivial
    · exact .after (takes_escapedSelf c) fun _ _ => .pure trivial

theorem takes_setMember (c : Char) : (setMember c).Takes := .ite (fun _ => takes_setEscape) fun _ => .pure trivial

theorem takes_setMembers (fuel : Nat) (found : List Member) : (setMembers fuel found).Takes := by
  induction fuel generalizing found with
  | zero => exact .bad
  | succ fuel ih =>
    refine .after takes_next fun c _ => .ite (fun _ => .pure trivial) fun _ =>
      .after (takes_setMember c) fun first _ => ?_
    refine .after (takes_accept _) fun ranged _ => .ite (fun _ => .after takes_next fun d _ => ?_) fun _ => ih _
    refine .ite (fun _ => .pure trivial) fun _ => .after (takes_setMember d) fun last _ => ?_
    split
    · exact .ite (fun _ => .bad) fun _ => ih _
    · exact .bad

theorem takes_checkLookbehind (g : Nat) : (checkLookbehind g).Takes := by
  refine .get fun r => ?_
  split
  · exact .pure trivial
  · exact .ite (fun _ => .pure trivial) fun _ => .bad

/-! ## Items without parts

They are simple, whatever text they are read from. -/

/-- Does the reader come to simple items only? -/
abbrev Parser.TakesSimple (p : Parser Tree) : Prop := p.Reads fun t _ => t.isSimple = true

theorem takesSimple_referenceTo (mode : Mode) (g : Nat) : (referenceTo mode g).TakesSimple :=
  .get fun _ => .ite (fun _ => .after (takes_checkLookbehind g) fun _ _ => .pure rfl) fun _ => .bad

theorem takesSimple_numericEscape (mode : Mode) (c : Char) : (numericEscape mode c).TakesSimple := by
  have reference (n : Nat) :
      Parser.TakesSimple (do if n < groupCount (← get) then referenceTo mode n else bad) :=
    .get fun _ => .ite (fun _ => takesSimple_referenceTo mode n) fun _ => .bad
  refine .ite (fun _ => .after (takes_takeWhile _ _) fun more _ => .pure rfl) fun _ => ?_
  refine .after (takes_takeWhile _ _) fun second _ => ?_
  split
  · refine .iteBind (P := fun _ _ => True) (fun _ => takes_takeWhile _ _) (fun _ => .pure trivial)
      fun third _ _ => ?_
    dsimp only
    split
    · exact .ite (fun _ => .pure rfl) fun _ => .bad
    · exact reference _
  · exact reference _

theorem takesSimple_escape (mode : Mode) : (escape mode).TakesSimple := by
  refine .after takes_next fun c _ => ?_
  split
  · exact .pure rfl
  · exact .pure rfl
  · exact .pure rfl
  refine .ite (fun _ => takesSimple_numericEscape mode c) fun _ => .after (takes_codeEscape? c) fun n _ => ?_
  split
  · exact .pure rfl
  · exact .after (takes_escapedSelf c) fun _ _ => .pure rfl

theorem takesSimple_characterSet (mode : Mode) : (characterSet mode).TakesSimple := by
  refine .after (takes_accept _) fun negated _ => .get fun r => .after (takes_setMembers _ _) fun members _ => ?_
  split <;> exact .pure rfl

theorem takesSimple_simpleItem (mode : Mode) (c : Char) : (simpleItem mode c).TakesSimple := by
  unfold simpleItem
  split
  · exact takesSimple_escape mode
  · exact takesSimple_characterSet mode
  all_goals exact .pure rfl

/-! ## Flags and groups -/

theorem takes_addedFlags (fuel : Nat) (c : Char) (bits : List Nat) : (addedFlags fuel c bits).Takes := by
  induction fuel generalizing c bits with
  | zero => exact .bad
  | succ fuel ih =>
    unfold addedFlags
    split
    · exact .bad
    · refine .ite (fun _ => .bad) fun _ => .ite (fun _ => .bad) fun _ => .after takes_next fun d _ => ?_
      exact .ite (fun _ => .pure trivial) fun _ => ih d _

theorem takes_removedFlags (fuel : Nat) (c : Char) (bits : List Nat) : (removedFlags fuel c bits).Takes := by
  induction fuel generalizing c bits with
  | zero => exact .bad
  | succ fuel ih =>
    unfold removedFlags
    split
    · exact .bad
    · refine .ite (fun _ => .bad) fun _ => .after takes_next fun d _ => ?_
      exact .ite (fun _ => .pure trivial) fun _ => ih d _

theorem takes_flagsAfterAdded (flags : Int) (added : List Nat) (stop : Char) :
    (flagsAfterAdded flags added stop).Takes := by
  refine .ite (fun _ => ?_) fun _ => .ite (fun _ => .bad) fun _ => ?_
  · exact .after (.modify (fun _ => rfl) trivial) fun _ _ => .pure trivial
  refine .iteBind (P := fun _ _ => True) (fun _ => ?_) (fun _ => .pure trivial) fun removed _ _ => ?_
  · exact .after takes_next fun c _ => .get fun _ => takes_removedFlags _ c []
  · exact .ite (fun _ => .bad) fun _ => .pure trivial

theorem takes_groupFlags? (flags : Int) (c : Char) : (groupFlags? flags c).Takes := by
  refine .ite (fun _ => takes_flagsAfterAdded flags [] _) fun _ => .get fun r => ?_
  exact .after (takes_addedFlags _ c []) fun a _ => takes_flagsAfterAdded flags a.1 a.2

theorem takes_openGroup (name : Option String) : (openGroup name).Takes := by
  refine .getSince fun r => ?_
  dsimp only
  split
  · exact .ite (fun _ => .bad) fun _ => .set (w := []) rfl (.pure trivial)
  · exact .set (w := []) rfl (.pure trivial)

theorem reads_closeGroup (g : Nat) (body : Tree) : (closeGroup g body).Reads fun _ w => w = [] :=
  .modify (fun _ => rfl) rfl

theorem reads_closeParenthesis : closeParenthesis.Reads fun _ w => w = [')'] :=
  .bind (reads_accept ')') fun _ _ hw => .ite (fun hb => .pure (by rw [hw, if_pos hb]; rfl)) fun _ => .bad

theorem takes_conditionGroup : conditionGroup.Takes := by
  have checked (g : Nat) : (do checkLookbehind g; return g : Parser Nat).Takes :=
    .after (takes_checkLookbehind g) fun _ _ => .pure trivial
  refine .after (takes_takeUntil _) fun name _ => .ite (fun _ => .get fun r => ?_) fun _ => ?_
  · dsimp only
    split
    · exact .after (.pure trivial) fun g _ => checked g
    · exact .after .bad fun g _ => checked g
  · dsimp only
    split
    · refine .ite (fun _ => .after .bad fun g _ => checked g) fun _ => ?_
      exact .after (.modify (fun _ => rfl) trivial) fun _ _ => .after (.pure trivial) fun g _ => checked g
    · exact .after .bad fun g _ => checked g

theorem reads_lookTree (ahead negated : Bool) (body : Tree) :
    (lookTree ahead negated body).Reads fun t w => w = [] ∧ ∃ width, t = .look ahead negated width body := by
  refine .get fun r => .ite (fun hahead => ?_) fun hahead => ?_
  · subst hahead
    exact .pure ⟨rfl, 0, rfl⟩
  · obtain rfl := Bool.eq_false_iff.2 hahead
    exact .when (fun _ => .modify (fun _ => rfl) rfl) (.pure ⟨rfl, _, rfl⟩)

/-! ## Repetitions -/

theorem isDigit_of_ascii (h : c.isDigit = true) : Text.isDigit c = true := by
  have hcode : c.toNat < 128 := by
    rw [Char.isDigit, Bool.and_eq_true, decide_eq_true_eq, decide_eq_true_eq] at h
    exact Nat.lt_of_le_of_lt (UInt32.le_iff_toNat_le.1 h.2) (by decide)
  rw [Text.isDigit, Text.digit?]
  simp [hcode, h]

theorem reads_count (digits : List Char) : (count digits).Reads fun _ w => w = [] :=
  .ite (fun _ => .pure rfl) fun _ => .throw _

/-- Bounds without a greatest count are written as an unbounded quantifier. -/
theorem reads_bounds? : bounds?.Reads fun bounds w =>
    ∀ least, bounds = some (least, none) → Safety.Unbounded ('\x7b' :: w) := by
  refine .getSince fun start => .ite (fun _ => .pure nofun) fun hbrace => ?_
  refine .bind (reads_takeWhile _ _) fun lo w ⟨hw, hlo⟩ => .bind (reads_accept ',') fun comma v hv => ?_
  refine .iteBind (P := fun hi u => comma = true ∧ u = hi ∨ comma = false ∧ u = [] ∧ hi = lo) ?_ ?_ fun hi u hu => ?_
  · exact fun hcomma => (reads_takeWhile _ _).mono fun hi u hu => .inl ⟨hcomma, hu.1⟩
  · exact fun hcomma => .pure (.inr ⟨Bool.eq_false_iff.2 hcomma, rfl, rfl⟩)
  refine .bind (reads_accept _) fun closed x hx => .ite (fun hclosed => ?_) fun _ => .set (w := []) rfl (.pure nofun)
  refine .iteBind (P := fun _ y => y = []) (fun _ => .pure rfl) (fun _ => reads_count lo) fun least y hy => ?_
  refine .iteBind (P := fun most z => z = [] ∧ (most = none → hi = [])) (fun hempty => .pure ?_)
    (fun _ => .map (reads_count hi) fun n z hz => ⟨hz, nofun⟩) fun most z ⟨hz, hmost⟩ => ?_
  · exact ⟨rfl, fun _ => List.isEmpty_iff.1 hempty⟩
  refine .ite (fun _ => .bad) fun _ => .pureOf fun rest hrest least' hbounds => ?_
  obtain ⟨-, rfl⟩ := Prod.mk.inj (Option.some.inj hbounds)
  obtain rfl := hmost rfl
  subst hw hy hz hx
  rcases hu with ⟨hcomma, rfl⟩ | ⟨hcomma, rfl, rfl⟩
  · have htext := Safety.Unbounded.counted fun d hd => isDigit_of_ascii (hlo d hd)
    simpa [hv, hcomma, hclosed] using htext
  · -- nothing but the closing brace was read, and this was ruled out at the start
    rw [hv, hcomma, hclosed] at hrest
    exact absurd (by rw [hrest]; rfl) hbrace

theorem reads_repeatLast (items : List Tree) (least : Nat) (most : Option Nat) :
    (repeatLast items least most).Reads fun ts w => ∃ item before greed, items = item :: before ∧
      item.isRepeatable = true ∧ ts = .repeated item least most greed :: before ∧ w ∈ [[], ['?'], ['+']] := by
  unfold repeatLast
  split
  · exact .bad
  · exact .bad
  · exact .bad
  · next item before hanchor hrepeated =>
    have hitem : item.isRepeatable = true := by
      cases item with
      | anchor mode a => exact absurd rfl (hanchor mode a)
      | repeated body least most greed => exact absurd rfl (hrepeated body least most greed)
      | _ => rfl
    refine .bind (reads_accept '?') fun b w hw => .ite (fun hb => .pure ?_) fun hb => ?_
    · exact ⟨item, before, .lazy, rfl, hitem, rfl, by simp [hw, hb]⟩
    refine .bind (reads_accept '+') fun b' w' hw' => .ite (fun hb' => .pure ?_) fun hb' => .pure ?_
    · exact ⟨item, before, .possessive, rfl, hitem, rfl, by simp [hw, hb, hw', hb']⟩
    · exact ⟨item, before, .greedy, rfl, hitem, rfl, by simp [hw, hb, hw', hb']⟩

/-! ## Text that is passed over -/

/-- A text up to a character that ends it, cut behind this character. -/
theorem behind?_eq_some {stop : Char} {cs rest : List Char} (h : behind? stop cs = some rest) :
    ∃ w, cs = w ++ rest ∧ behind? stop w = some [] := by
  fun_induction behind? stop cs with
  | case1 => cases h
  | case2 c cs ih =>
    obtain ⟨w, rfl, hw⟩ := ih h
    exact ⟨'\\' :: c :: w, rfl, hw⟩
  | case3 c hc =>
    obtain rfl := Option.some.inj h
    exact ⟨[stop], rfl, by simp [behind?]⟩
  | case4 c cs hescape hc ih =>
    obtain ⟨w, rfl, hw⟩ := ih h
    refine ⟨c :: w, rfl, ?_⟩
    rw [behind?, if_neg hc, hw]
    rintro d rest rfl hrest
    subst hrest
    exact hescape d _ rfl rfl

theorem reads_skipComment : skipComment.Reads fun _ w => behind? ')' w = some [] := by
  refine .getSince fun r => ?_
  split
  · exact .bad
  · next hrest =>
    obtain ⟨w, hw, hend⟩ := behind?_eq_some hrest
    exact .set hw (.pure hend)

theorem reads_skipLine : skipLine.Reads fun _ w => (behind? '\n' w).getD [] = [] := by
  rintro r _ _ ⟨⟩
  dsimp only
  rcases hrest : behind? '\n' r.rest with _ | rest
  · exact ⟨r.rest, by simp, by rw [hrest]; rfl⟩
  · obtain ⟨w, hw, hend⟩ := behind?_eq_some hrest
    exact ⟨w, hw, by rw [hend]; rfl⟩

end Winnow.Pattern
