import Mathlib
import Winnow.Proofs.Number.Decimal
import Winnow.Transport.JsonReader
/-! # Texts and numbers in JSON

What is written for a text or a number is read back with anything behind it that can end a value. A text is
escaped character by character, and `codesOf` says which codes a character is read as. Reading a number does
not look behind its end, so a number that is read to the end of a text is read with more behind it too. -/

namespace Winnow.Json

/-! ## Texts -/

/-- The codes of a character: its own, or two halves beyond the sixteen bits. -/
def codesOf (c : Char) : List Nat :=
  if c.toNat < 0x10000 then [c.toNat]
  else [0xd800 + (c.toNat - 0x10000) / 0x400, 0xdc00 + (c.toNat - 0x10000) % 0x400]

theorem hexValue?_digitChar : ∀ d < 16, hexValue? (Nat.digitChar d) = some d := by decide

theorem hexValue?_hexDigit (n : Nat) : hexValue? (Text.hexDigit n) = some (n % 16) :=
  hexValue?_digitChar _ (Nat.mod_lt _ (by decide))

variable {rest more : List Char}

theorem readCodes?_unit {n : Nat} (hn : n < 0x10000) :
    readCodes? ('\\' :: 'u' :: (Text.hexPadded 4 n ++ more)) =
      (readCodes? more).map fun p => (n :: p.1, p.2) := by
  have hdigits : Text.hexPadded 4 n = [Text.hexDigit (n / 16 / 16 / 16), Text.hexDigit (n / 16 / 16),
      Text.hexDigit (n / 16), Text.hexDigit n] := rfl
  have hunit : hexUnit? (Text.hexDigit (n / 16 / 16 / 16)) (Text.hexDigit (n / 16 / 16))
      (Text.hexDigit (n / 16)) (Text.hexDigit n) = some n := by
    simp only [hexUnit?, hexValue?_hexDigit, Option.bind_eq_bind, Option.bind_some, Option.pure_def,
      Option.some.injEq]
    omega
  rw [hdigits]
  simp only [List.cons_append, List.nil_append, readCodes?, hunit, Option.bind_eq_bind, Option.bind_some,
    Option.pure_def]
  cases readCodes? more <;> rfl

/-- Characters are no halves of pairs. -/
theorem char_range (c : Char) : c.toNat < 0xd800 ∨ (0xdfff < c.toNat ∧ c.toNat < 0x110000) := c.valid

theorem readCodes?_codeEscape (c : Char) :
    readCodes? (codeEscape c ++ more) = (readCodes? more).map fun p => (codesOf c ++ p.1, p.2) := by
  have hc := char_range c
  unfold codeEscape codesOf
  simp only
  split
  · next h => exact readCodes?_unit h
  · simp only [List.cons_append, List.append_assoc]
    rw [readCodes?_unit (by omega), readCodes?_unit (by omega), Option.map_map]
    rfl

theorem readCodes?_short {e c : Char} (hu : e ≠ 'u') (h : shortEscape? e = some c) :
    readCodes? ('\\' :: e :: more) = (readCodes? more).map fun p => (c.toNat :: p.1, p.2) := by
  rw [readCodes?.eq_def]
  split
  · next hm => cases hm
  · next hm => cases hm
  · next hm =>
    cases hm
    exact absurd rfl hu
  · next hm =>
    cases hm
    rw [h]
    cases readCodes? more <;> rfl
  · next hno hm =>
    cases hm
    exact (hno _ _ rfl rfl).elim

theorem readCodes?_plain {c : Char} (hquote : c ≠ '"') (hback : c ≠ '\\') (hc : 0x20 ≤ c.toNat) :
    readCodes? (c :: more) = (readCodes? more).map fun p => (c.toNat :: p.1, p.2) := by
  rw [readCodes?.eq_def]
  split
  · next hm => cases hm
  · next hm =>
    cases hm
    exact absurd rfl hquote
  · next hm =>
    cases hm
    exact absurd rfl hback
  · next hm =>
    cases hm
    exact absurd rfl hback
  · next hm =>
    cases hm
    simp only [hback, or_false, if_neg (Nat.not_lt.2 hc)]
    cases readCodes? more <;> rfl

theorem codesOf_small {c : Char} (hc : c.toNat < 0x10000) : codesOf c = [c.toNat] := if_pos hc

theorem readCodes?_escapeChar (c : Char) :
    readCodes? (escapeChar true c ++ more) = (readCodes? more).map fun p => (codesOf c ++ p.1, p.2) := by
  unfold escapeChar
  split
  · exact readCodes?_short (by decide) rfl
  · exact readCodes?_short (by decide) rfl
  · exact readCodes?_short (by decide) rfl
  · exact readCodes?_short (by decide) rfl
  · exact readCodes?_short (by decide) rfl
  · exact readCodes?_short (by decide) rfl
  · exact readCodes?_short (by decide) rfl
  · next hquote hback _ _ _ _ _ =>
    split
    · exact readCodes?_codeEscape c
    · next h =>
      simp only [true_and, not_or, Nat.not_lt, Nat.not_le] at h
      rw [codesOf_small (by omega)]
      exact readCodes?_plain hquote hback h.1

theorem readCodes?_quoted (cs : List Char) :
    readCodes? (cs.flatMap (escapeChar true) ++ '"' :: rest) = some (cs.flatMap codesOf, rest) := by
  induction cs with
  | nil => rfl
  | cons c cs ih =>
    rw [List.flatMap_cons, List.append_assoc, readCodes?_escapeChar, ih]
    rfl

theorem joinHalves_whole {n : Nat} (hn : isHighSurrogate n = false) (hl : isLowSurrogate n = false)
    (ns : List Nat) : joinHalves (n :: ns) = Char.ofNat n :: joinHalves ns := by
  cases ns with
  | nil => simp [joinHalves, hn, hl]
  | cons m ns => simp [joinHalves, hn, hl]

theorem joinHalves_pair {n m : Nat} (hn : isHighSurrogate n = true) (hm : isLowSurrogate m = true)
    (ns : List Nat) : joinHalves (n :: m :: ns) =
      Char.ofNat (0x10000 + (n - 0xd800) * 0x400 + (m - 0xdc00)) :: joinHalves ns := by
  simp [joinHalves, hn, hm]

theorem joinHalves_codesOf (c : Char) (ns : List Nat) : joinHalves (codesOf c ++ ns) = c :: joinHalves ns := by
  have hc := char_range c
  unfold codesOf
  split
  · have hhigh : isHighSurrogate c.toNat = false := by
      simp only [isHighSurrogate, Bool.and_eq_false_iff, decide_eq_false_iff_not]
      omega
    have hlow : isLowSurrogate c.toNat = false := by
      simp only [isLowSurrogate, Bool.and_eq_false_iff, decide_eq_false_iff_not]
      omega
    rw [List.singleton_append, joinHalves_whole hhigh hlow, Char.ofNat_toNat]
  · have hhigh : isHighSurrogate (0xd800 + (c.toNat - 0x10000) / 0x400) = true := by
      simp only [isHighSurrogate, Bool.and_eq_true, decide_eq_true_eq]
      omega
    have hlow : isLowSurrogate (0xdc00 + (c.toNat - 0x10000) % 0x400) = true := by
      simp only [isLowSurrogate, Bool.and_eq_true, decide_eq_true_eq]
      omega
    have hsum : 0x10000 + (0xd800 + (c.toNat - 0x10000) / 0x400 - 0xd800) * 0x400 +
        (0xdc00 + (c.toNat - 0x10000) % 0x400 - 0xdc00) = c.toNat := by omega
    rw [List.cons_append, List.singleton_append, joinHalves_pair hhigh hlow, hsum, Char.ofNat_toNat]

theorem joinHalves_flatMap (cs : List Char) : joinHalves (cs.flatMap codesOf) = cs := by
  induction cs with
  | nil => rfl
  | cons c cs ih => rw [List.flatMap_cons, joinHalves_codesOf, ih]

theorem toList_quoted (s : String) :
    (quoted true s).toList = '"' :: (s.toList.flatMap (escapeChar true) ++ ['"']) := by
  simp [quoted]

/-- What stands between quotes is read back. -/
theorem readText?_quoted (s : String) (rest : List Char) :
    readText? (s.toList.flatMap (escapeChar true) ++ '"' :: rest) = some (s, rest) := by
  rw [readText?, readCodes?_quoted]
  simp [joinHalves_flatMap]

/-! ## Numbers -/

/-- Can the characters stand behind a value? -/
def Ends (rest : List Char) : Prop := ∀ c ∈ rest.head?, c = ',' ∨ c = ']' ∨ c = '}'

theorem takeDigits_append (hrest : Ends rest) (cs : List Char) :
    takeDigits (cs ++ rest) = ((takeDigits cs).1, (takeDigits cs).2 ++ rest) := by
  induction cs with
  | nil =>
    cases rest with
    | nil => rfl
    | cons c rest =>
      have hc : c.isDigit = false := by
        rcases hrest c rfl with rfl | rfl | rfl <;> rfl
      simp [takeDigits, hc]
  | cons c cs ih =>
    simp only [takeDigits, Prod.mk.injEq] at ih
    by_cases hc : c.isDigit = true
    · simp [takeDigits, hc, ih]
    · simp [takeDigits, hc]

theorem readWhole?_append (hrest : Ends rest) {cs whole r : List Char} (h : readWhole? cs = some (whole, r)) :
    readWhole? (cs ++ rest) = some (whole, r ++ rest) := by
  unfold readWhole? at h ⊢
  split at h
  · obtain ⟨rfl, rfl⟩ := Prod.mk.inj (Option.some.inj h)
    rfl
  · next c cs hzero =>
    split at h
    · next hc =>
      have hfirst : c ≠ '0' := by
        rintro rfl
        exact hzero rfl
      have htake := takeDigits_append hrest (c :: cs)
      rw [List.cons_append] at htake ⊢
      split
      · next hm =>
        cases hm
        exact absurd rfl hfirst
      · next hm =>
        cases hm
        rw [if_pos hc, htake, Option.some.inj h]
      · next hm => cases hm
    · cases h
  · cases h

theorem head_ne_of_ends (hrest : Ends rest) {c : Char} (hc : c ≠ ',' ∧ c ≠ ']' ∧ c ≠ '}') (more : List Char) : rest ≠ c :: more := by
  rintro rfl
  rcases hrest c rfl with h | h | h
  · exact hc.1 h
  · exact hc.2.1 h
  · exact hc.2.2 h

theorem readFraction_append (hrest : Ends rest) (cs : List Char) :
    readFraction (cs ++ rest) = ((readFraction cs).1, (readFraction cs).2 ++ rest) := by
  rcases cs with _ | ⟨c, cs⟩
  · rw [List.nil_append, readFraction]
    · rfl
    · exact head_ne_of_ends hrest (by decide)
  · by_cases hc : c = '.'
    · subst hc
      rw [List.cons_append]
      simp only [readFraction, takeDigits_append hrest]
      rcases takeDigits cs with ⟨_ | ⟨d, ds⟩, r⟩ <;> rfl
    · simp [readFraction, hc]

/-- An exponent behind its sign. -/
def readPower? (negative : Bool) (cs : List Char) : Option (Int × List Char) :=
  match takeDigits cs with
  | ([], _) => none
  | (ds, rest) => some (if negative then -(digitsValue ds : Int) else digitsValue ds, rest)

theorem readPower?_append (hrest : Ends rest) (negative : Bool) (cs : List Char) :
    readPower? negative (cs ++ rest) = (readPower? negative cs).map fun p => (p.1, p.2 ++ rest) := by
  rw [readPower?, readPower?, takeDigits_append hrest]
  rcases takeDigits cs with ⟨_ | ⟨d, ds⟩, r⟩ <;> rfl

theorem readExponent?_cons (e : Char) (cs : List Char) : readExponent? (e :: cs) =
    if e = 'e' ∨ e = 'E' then
      match cs with
      | '-' :: more => readPower? true more
      | '+' :: more => readPower? false more
      | more => readPower? false more
    else none := rfl

theorem readExponent?_append (hrest : Ends rest) (cs : List Char) :
    readExponent? (cs ++ rest) = (readExponent? cs).map fun p => (p.1, p.2 ++ rest) := by
  rcases cs with _ | ⟨e, cs⟩
  · rcases rest with _ | ⟨c, rest⟩
    · rfl
    · have hc : ¬ (c = 'e' ∨ c = 'E') := by
        rcases hrest c rfl with rfl | rfl | rfl <;> decide
      rw [List.nil_append, readExponent?_cons, if_neg hc]
      rfl
  rw [List.cons_append, readExponent?_cons, readExponent?_cons]
  by_cases he : e = 'e' ∨ e = 'E'
  · rw [if_pos he, if_pos he]
    rcases cs with _ | ⟨c, cs⟩
    · have hpower := readPower?_append hrest false []
      rw [List.nil_append] at hpower ⊢
      split
      · exact (head_ne_of_ends hrest (by decide) _ rfl).elim
      · exact (head_ne_of_ends hrest (by decide) _ rfl).elim
      · exact hpower
    · by_cases hminus : c = '-'
      · subst hminus
        exact readPower?_append hrest true cs
      by_cases hplus : c = '+'
      · subst hplus
        exact readPower?_append hrest false cs
      have hpower := readPower?_append hrest false (c :: cs)
      simpa [hminus, hplus] using hpower
  · rw [if_neg he, if_neg he]
    rfl

theorem readNumber_append (hrest : Ends rest) {negative : Bool} {cs r : List Char} {v : Value}
    (h : readNumber negative cs = .ok (v, r)) : readNumber negative (cs ++ rest) = .ok (v, r ++ rest) := by
  unfold readNumber at h ⊢
  split at h
  · cases h
  · next whole afterWhole hwhole =>
    rcases hfraction : readFraction afterWhole with ⟨fraction, afterFraction⟩
    simp only [readWhole?_append hrest hwhole, readFraction_append hrest, readExponent?_append hrest,
      hfraction, Option.isNone_map] at h ⊢
    split at h
    · next hwhole =>
      rw [if_pos hwhole]
      split at h
      · next hlen =>
        obtain ⟨rfl, rfl⟩ := Prod.mk.inj (Except.ok.inj h)
        rw [if_pos hlen]
      · cases h
    · next hwhole =>
      rw [if_neg hwhole]
      obtain ⟨rfl, rfl⟩ := Prod.mk.inj (Except.ok.inj h)
      cases readExponent? afterFraction <;> rfl

/-! ## Values without parts -/

theorem afterWord?_append (hrest : Ends rest) {word : String}
    (hword : ∀ c ∈ word.toList, c ≠ ',' ∧ c ≠ ']' ∧ c ≠ '}') (cs : List Char) :
    afterWord? word (cs ++ rest) = (afterWord? word cs).map (· ++ rest) := by
  unfold afterWord?
  by_cases h : word.toList <+: cs
  · have hlong : word.toList <+: cs ++ rest := h.trans (List.prefix_append ..)
    simp [List.isPrefixOf_iff_prefix.2 h, List.isPrefixOf_iff_prefix.2 hlong,
      List.drop_append_of_le_length h.length_le]
  · have hno : ¬ word.toList <+: cs ++ rest := by
      intro hlong
      rcases List.prefix_or_prefix_of_prefix hlong (List.prefix_append cs rest) with hshort | ⟨tail, htail⟩
      · exact h hshort
      -- the word would go on into what ends the value
      rw [← htail, List.prefix_append_right_inj] at hlong
      obtain ⟨more, rfl⟩ := hlong
      rcases tail with _ | ⟨c, tail⟩
      · rw [List.append_nil] at htail
        exact h (htail ▸ List.prefix_refl _)
      · have hc := hword c (htail ▸ List.mem_append_right _ (List.mem_cons_self ..))
        exact head_ne_of_ends hrest hc _ rfl
    simp [← List.isPrefixOf_iff_prefix] at h hno
    simp [h, hno]

/-- The value of the word at the start. -/
def findWord? (cs : List Char) : Option (Value × List Char) :=
  wordValues.findSome? fun (w, v) => (afterWord? w cs).map fun rest => (v, rest)

theorem findWord?_append (hrest : Ends rest) (cs : List Char) :
    findWord? (cs ++ rest) = (findWord? cs).map fun p => (p.1, p.2 ++ rest) := by
  have happend (w : String) (hw : (w.toList.all fun c => c ≠ ',' ∧ c ≠ ']' ∧ c ≠ '}') = true) :=
    afterWord?_append hrest (fun c hc => of_decide_eq_true (List.all_eq_true.1 hw c hc)) cs
  rw [findWord?, findWord?, List.map_findSome?]
  simp only [wordValues, List.findSome?_cons, happend "null" (by decide), happend "true" (by decide),
    happend "false" (by decide), happend "NaN" (by decide), happend "Infinity" (by decide),
    happend "-Infinity" (by decide), Option.map_map, Function.comp_def, List.findSome?_nil]

theorem readAtom_eq (cs : List Char) : readAtom cs =
    match findWord? cs with
    | some found => .ok found
    | none =>
      match cs with
      | '"' :: rest =>
        match readText? rest with
        | some (s, rest) => .ok (.text s, rest)
        | none => undecodable
      | '-' :: rest => readNumber true rest
      | cs => readNumber false cs := rfl

/-- A value that is read to the end of a text is read with more behind it. -/
theorem readAtom_append (hrest : Ends rest) {cs : List Char} {v : Value} (hquote : ∀ more, cs ≠ '"' :: more)
    (h : readAtom cs = .ok (v, [])) : readAtom (cs ++ rest) = .ok (v, rest) := by
  rw [readAtom_eq] at h ⊢
  rw [findWord?_append hrest]
  rcases hword : findWord? cs with _ | ⟨w, r⟩ <;> rw [hword] at h
  · rcases cs with _ | ⟨c, cs⟩
    · cases h
    by_cases hminus : c = '-'
    · subst hminus
      exact readNumber_append hrest h
    · have hquote : c ≠ '"' := fun hc => hquote cs (by rw [hc])
      have hnumber : readNumber false (c :: cs) = .ok (v, []) := by simpa [hquote, hminus] using h
      have happend := readNumber_append hrest hnumber
      simpa [hquote, hminus] using happend
  · obtain ⟨rfl, rfl⟩ := Prod.mk.inj (Except.ok.inj h)
    rfl

/-! ## Whole numbers -/

theorem digitsValue_toDigits (n : Nat) : digitsValue (Nat.toDigits 10 n) = n := by
  have hfold : digitsValue (Nat.toDigits 10 n) = Nat.ofDigitChars 10 (Nat.toDigits 10 n) 0 := by
    unfold digitsValue Nat.ofDigitChars
    congr
    funext k c
    rw [Nat.mul_comm]
  rw [hfold, Nat.ofDigitChars_ten_toDigits]

theorem takeDigits_digits {ds : List Char} (hds : ∀ c ∈ ds, c.isDigit = true) : takeDigits ds = (ds, []) := by
  induction ds with
  | nil => rfl
  | cons c ds ih =>
    have hc : c.isDigit = true := hds c (List.mem_cons_self ..)
    have hrest := ih fun d hd => hds d (List.mem_cons_of_mem _ hd)
    simp only [takeDigits, Prod.mk.injEq] at hrest
    simp [takeDigits, hc, hrest]

theorem isDigit_of_mem_toDigits {n : Nat} {c : Char} (hc : c ∈ Nat.toDigits 10 n) : c.isDigit = true :=
  Nat.isDigit_of_mem_toDigits (by decide) (by decide) hc

/-- The digits of a positive number start with no zero. -/
theorem toDigits_ne_zero_cons {n : Nat} (hn : 0 < n) (ds : List Char) : Nat.toDigits 10 n ≠ '0' :: ds := by
  induction n using Nat.strongRecOn generalizing ds with
  | ind n ih =>
    rcases Nat.lt_or_ge n 10 with hlt | hge
    · rw [Nat.toDigits_of_lt_base hlt]
      intro h
      have hzero : ∀ k < 10, Nat.digitChar k = '0' → k = 0 := by decide
      have := hzero n hlt (List.cons.inj h).1
      omega
    · rw [Nat.toDigits_of_base_le (by decide) hge]
      intro h
      rcases hds : Nat.toDigits 10 (n / 10) with _ | ⟨d, more⟩
      · exact Nat.toDigits_ne_nil hds
      · rw [hds, List.cons_append] at h
        refine ih (n / 10) (by omega) (by omega) more ?_
        rw [hds, (List.cons.inj h).1]

theorem readWhole?_toDigits (n : Nat) : readWhole? (Nat.toDigits 10 n) = some (Nat.toDigits 10 n, []) := by
  rcases Nat.eq_zero_or_pos n with rfl | hn
  · rfl
  have hall : ∀ c ∈ Nat.toDigits 10 n, c.isDigit = true := fun c hc => isDigit_of_mem_toDigits hc
  have htake := takeDigits_digits hall
  have hfirst := toDigits_ne_zero_cons hn
  rcases hds : Nat.toDigits 10 n with _ | ⟨d, ds⟩
  · exact absurd hds Nat.toDigits_ne_nil
  rw [hds] at hall htake hfirst
  have hd : d ≠ '0' := fun h => hfirst ds (by rw [h])
  simp [readWhole?, hall d (List.mem_cons_self ..), htake]

theorem readNumber_toDigits {n : Nat} (hn : n < 10 ^ maxDigits) (negative : Bool) :
    readNumber negative (Nat.toDigits 10 n) = .ok (.int (if negative then -(n : Int) else n), []) := by
  have hlen : (Nat.toDigits 10 n).length ≤ maxDigits :=
    (Nat.length_toDigits_le_iff (by decide) (by decide)).2 hn
  have hfraction : readFraction [] = ([], []) := rfl
  have hexponent : readExponent? [] = none := rfl
  simp [readNumber, readWhole?_toDigits, hfraction, hexponent, hlen, digitsValue_toDigits]

theorem ne_of_isDigit {c : Char} (hc : c.isDigit = true) :
    c ≠ '-' ∧ c ≠ '"' ∧ ∀ d ∈ ['n', 't', 'f', 'N', 'I', '-'], d ≠ c := by
  refine ⟨?_, ?_, ?_⟩
  · rintro rfl
    cases hc
  · rintro rfl
    cases hc
  · intro d hd hdc
    subst hdc
    simp only [List.mem_cons, List.not_mem_nil, or_false] at hd
    rcases hd with rfl | rfl | rfl | rfl | rfl | rfl <;> cases hc

variable {c : Char} (hc : c.isDigit = true) (cs : List Char)
include hc

theorem findWord?_digit : findWord? (c :: cs) = none := by
  have hne := (ne_of_isDigit hc).2.2
  simp only [List.forall_mem_cons] at hne
  simp [findWord?, wordValues, afterWord?, hne]

theorem findWord?_minus : findWord? ('-' :: c :: cs) = none := by
  have hne := (ne_of_isDigit hc).2.2
  simp only [List.forall_mem_cons] at hne
  simp [findWord?, wordValues, afterWord?, hne]

theorem readAtom_digit : readAtom (c :: cs) = readNumber false (c :: cs) := by
  obtain ⟨hminus, hquote, -⟩ := ne_of_isDigit hc
  rw [readAtom_eq, findWord?_digit hc]
  simp [hminus, hquote]

theorem readAtom_minus : readAtom ('-' :: c :: cs) = readNumber true (c :: cs) := by
  rw [readAtom_eq, findWord?_minus hc]
  rfl

omit hc

theorem readAtom_int {i : Int} (hi : i.natAbs < 10 ^ maxDigits) :
    readAtom (toString i).toList = .ok (.int i, []) := by
  have hdigits (n : Nat) : ∃ c cs, Nat.toDigits 10 n = c :: cs ∧ c.isDigit = true := by
    rcases hds : Nat.toDigits 10 n with _ | ⟨c, cs⟩
    · exact absurd hds Nat.toDigits_ne_nil
    · exact ⟨c, cs, rfl, isDigit_of_mem_toDigits (hds ▸ List.mem_cons_self ..)⟩
  rcases i with n | n
  · have htext : (toString (Int.ofNat n)).toList = Nat.toDigits 10 n := Nat.toList_repr
    have hread := readNumber_toDigits (n := n) hi false
    obtain ⟨c, cs, hds, hc⟩ := hdigits n
    rw [htext, hds, readAtom_digit hc, ← hds]
    exact hread
  · have htext : (toString (Int.negSucc n)).toList = '-' :: Nat.toDigits 10 (n + 1) := by
      show ("-" ++ (n + 1).repr).toList = _
      simp
    have hread := readNumber_toDigits (n := n + 1) hi true
    obtain ⟨c, cs, hds, hc⟩ := hdigits (n + 1)
    rw [htext, hds, readAtom_minus hc, ← hds]
    exact hread

/-! ## Printed numbers -/

/-- Do only digits, signs, points and letters of the words for floats occur? -/
def NumberChars (s : String) : Prop :=
  ∀ c ∈ s.toList, c.isDigit = true ∨ c ∈ ['+', '-', '.', 'e', 'I', 'n', 'f', 'i', 't', 'y', 'N', 'a']

theorem numberChars_of_all {s : String} (h : (s.toList.all fun c => c.isDigit = true ∨
    c ∈ ['+', '-', '.', 'e', 'I', 'n', 'f', 'i', 't', 'y', 'N', 'a']) = true) : NumberChars s :=
  fun c hc => of_decide_eq_true (List.all_eq_true.1 h c hc)

theorem NumberChars.append {s t : String} (hs : NumberChars s) (ht : NumberChars t) : NumberChars (s ++ t) := by
  intro c hc
  rw [String.toList_append, List.mem_append] at hc
  exact hc.elim (hs c) (ht c)

theorem numberChars_ofList {ds : List Char} (hds : ∀ c ∈ ds, c.isDigit = true) : NumberChars (String.ofList ds) := by
  intro c hc
  rw [String.toList_ofList] at hc
  exact .inl (hds c hc)

theorem numberChars_natText (n : Nat) : NumberChars (toString n) := by
  intro c hc
  exact .inl (isDigit_of_mem_toDigits (by rwa [← Nat.toList_repr]))

theorem numberChars_intText (i : Int) : NumberChars (toString i) := by
  rcases i with n | n
  · exact numberChars_natText n
  · show NumberChars ("-" ++ (n + 1).repr)
    exact NumberChars.append (numberChars_of_all (by decide)) (numberChars_natText (n + 1))

theorem numberChars_zeros (n : Nat) : NumberChars (zeros n) :=
  numberChars_ofList fun c hc => by rw [List.eq_of_mem_replicate hc]; rfl

theorem numberChars_exponentText (e : Int) : NumberChars (exponentText e) := by
  have hdigits := numberChars_natText e.natAbs
  have hsign : NumberChars (if e < 0 then "-" else "+") := by
    split <;> exact numberChars_of_all (by decide)
  unfold exponentText
  refine hsign.append ?_
  split
  · exact NumberChars.append (numberChars_of_all (by decide)) hdigits
  · exact hdigits

theorem numberChars_text (layout : FloatLayout) (d : Decimal) : NumberChars (d.text layout) := by
  have hdigits : ∀ c ∈ Nat.toDigits 10 d.digits, c.isDigit = true := fun c hc => isDigit_of_mem_toDigits hc
  have htake (n : Nat) : NumberChars (String.ofList ((Nat.toDigits 10 d.digits).take n)) :=
    numberChars_ofList fun c hc => hdigits c (List.mem_of_mem_take hc)
  have hdrop (n : Nat) : NumberChars (String.ofList ((Nat.toDigits 10 d.digits).drop n)) :=
    numberChars_ofList fun c hc => hdigits c (List.mem_of_mem_drop hc)
  have hword (s : String) (hs : s ∈ ["", ".", "0.", ".0", "e"]) : NumberChars s := by
    simp only [List.mem_cons, List.not_mem_nil, or_false] at hs
    rcases hs with rfl | rfl | rfl | rfl | rfl <;> exact numberChars_of_all (by decide)
  unfold Decimal.text
  simp only
  split
  · split
    · exact ((hword _ (by simp)).append (numberChars_zeros _)).append (numberChars_ofList hdigits)
    · split
      · exact ((numberChars_ofList hdigits).append (numberChars_zeros _)).append (hword _ (by simp))
      · exact ((htake _).append (hword _ (by simp))).append (hdrop _)
  · refine (((htake 1).append ?_).append (hword _ (by simp))).append (numberChars_exponentText _)
    split
    · exact hword _ (by simp)
    · exact (hword _ (by simp)).append (hdrop 1)

theorem numberChars_floatText (f : Float) : NumberChars (floatText .transport f) := by
  have hword (s : String) (hs : s ∈ ["", "-", "0.0", "Infinity", "NaN"]) : NumberChars s := by
    simp only [List.mem_cons, List.not_mem_nil, or_false] at hs
    rcases hs with rfl | rfl | rfl | rfl | rfl <;> exact numberChars_of_all (by decide)
  have hsign : NumberChars (if Exact.signBit f then "-" else "") := by
    split <;> exact hword _ (by simp)
  unfold floatText
  simp only
  split
  · exact hsign.append (hword _ (by simp))
  · exact hsign.append (numberChars_text _ _)
  · split
    · exact hsign.append (hword _ (by simp [FloatLayout.transport]))
    · exact hword _ (by simp [FloatLayout.transport])

end Winnow.Json
