import Winnow.Proofs.Number.Shortest
import Winnow.Proofs.Transport.JsonText
/-! # Floats as JSON texts

A float is read back from its text. The text is a whole part, a fraction and a power of ten, of which the last two
may be missing; it is read as the decimal that was printed, and that is rounded to the float. -/

namespace Winnow.Json

/-! ## Digits -/

theorem foldl_digits (n : Nat) (ds : List Char) : ds.foldl (fun n c => n * 10 + (c.toNat - '0'.toNat)) n =
    n * 10 ^ ds.length + digitsValue ds := by
  induction ds generalizing n with
  | nil => simp [digitsValue]
  | cons d ds ih =>
    have hvalue : digitsValue (d :: ds) = (d.toNat - '0'.toNat) * 10 ^ ds.length + digitsValue ds := by
      rw [← ih, digitsValue, List.foldl_cons, Nat.zero_mul, Nat.zero_add]
    rw [List.foldl_cons, ih, hvalue, List.length_cons, pow_succ]
    ring

theorem digitsValue_append (ds es : List Char) :
    digitsValue (ds ++ es) = digitsValue ds * 10 ^ es.length + digitsValue es := by
  rw [digitsValue, List.foldl_append, foldl_digits]
  rfl

theorem digitsValue_zeros (n : Nat) : digitsValue (List.replicate n '0') = 0 := by
  induction n with
  | zero => rfl
  | succ n ih =>
    have hzero : digitsValue ['0'] = 0 := rfl
    rw [List.replicate_succ', digitsValue_append, ih, hzero, Nat.zero_mul]

/-- Does no digit come first? -/
def Stops (rest : List Char) : Prop := ∀ c ∈ rest.head?, c.isDigit = false

theorem takeDigits_stop {ds rest : List Char} (hds : ∀ c ∈ ds, c.isDigit = true) (hrest : Stops rest) :
    takeDigits (ds ++ rest) = (ds, rest) := by
  have hstop : rest.takeWhile Char.isDigit = [] ∧ rest.dropWhile Char.isDigit = rest := by
    rcases rest with _ | ⟨c, rest⟩
    · exact ⟨rfl, rfl⟩
    · have hc : c.isDigit = false := hrest c rfl
      exact ⟨by simp [hc], by simp [hc]⟩
  rw [takeDigits, List.takeWhile_append_of_pos hds, List.dropWhile_append_of_pos hds, hstop.1, hstop.2,
    List.append_nil]

/-! ## The parts of a number -/

/-- A fraction behind its point; nothing without one. -/
def fractionChars (fraction : List Char) : List Char := if fraction.isEmpty then [] else '.' :: fraction

/-- A power of ten behind its mark; nothing without one. -/
def powerChars : Option Int → List Char
  | none => []
  | some e => 'e' :: (exponentText e).toList

/-- A number in parts: digits of which the first is zero only when it is the only one, and what follows. -/
structure Parted where
  whole : List Char
  fraction : List Char
  power : Option Int

namespace Parted

def chars (p : Parted) : List Char := p.whole ++ (fractionChars p.fraction ++ powerChars p.power)

/-- The decimal that is read. -/
def decimal (p : Parted) : Decimal := ⟨digitsValue (p.whole ++ p.fraction), p.power.getD 0 - p.fraction.length⟩

/-- Are the parts those of a float, and told apart when they are read? -/
structure WellFormed (p : Parted) : Prop where
  whole : ∀ c ∈ p.whole, c.isDigit = true
  first : p.whole = ['0'] ∨ ∃ d ds, p.whole = d :: ds ∧ d ≠ '0'
  fraction : ∀ c ∈ p.fraction, c.isDigit = true
  marked : p.fraction ≠ [] ∨ p.power ≠ none

variable {p : Parted}

theorem stops_powerChars (power : Option Int) : Stops (powerChars power) := by
  rcases power with _ | e
  · exact fun c hc => nomatch hc
  · rintro c hc
    obtain rfl := Option.some.inj hc
    rfl

theorem readFraction_chars (hp : p.WellFormed) :
    readFraction (fractionChars p.fraction ++ powerChars p.power) = (p.fraction, powerChars p.power) := by
  unfold fractionChars
  rcases hfraction : p.fraction with _ | ⟨d, ds⟩
  · rcases p.power with _ | e <;> rfl
  · have htake := takeDigits_stop hp.fraction (stops_powerChars p.power)
    rw [hfraction] at htake
    show readFraction ('.' :: (d :: ds ++ powerChars p.power)) = _
    rw [readFraction, htake]

theorem readPower?_digits {ds : List Char} (hds : ∀ c ∈ ds, c.isDigit = true) (hne : ds ≠ []) (negative : Bool) :
    readPower? negative ds = some (if negative then -(digitsValue ds : Int) else digitsValue ds, []) := by
  rw [readPower?, takeDigits_digits hds]
  rcases ds with _ | ⟨d, ds⟩
  · exact absurd rfl hne
  · rfl

/-- The digits of an exponent, of which there are at least two. -/
theorem exists_exponentDigits (n : Nat) : ∃ ds : List Char,
    (if n < 10 then "0" ++ toString n else toString n).toList = ds ∧ (∀ c ∈ ds, c.isDigit = true) ∧ ds ≠ [] ∧
      digitsValue ds = n := by
  have hdigits : (toString n).toList = Nat.toDigits 10 n := Nat.toList_repr
  have hall : ∀ c ∈ Nat.toDigits 10 n, c.isDigit = true := fun c hc => isDigit_of_mem_toDigits hc
  split
  · refine ⟨'0' :: Nat.toDigits 10 n, by rw [String.toList_append, hdigits]; rfl, ?_, by simp, ?_⟩
    · exact List.forall_mem_cons.2 ⟨rfl, hall⟩
    · have hzero : digitsValue ['0'] = 0 := rfl
      rw [← List.singleton_append, digitsValue_append, hzero, Nat.zero_mul, Nat.zero_add, digitsValue_toDigits]
  · exact ⟨_, hdigits, hall, Nat.toDigits_ne_nil, digitsValue_toDigits n⟩

theorem readExponent?_chars (e : Int) : readExponent? (powerChars (some e)) = some (e, []) := by
  obtain ⟨ds, htext, hds, hne, hvalue⟩ := exists_exponentDigits e.natAbs
  rw [powerChars, exponentText, String.toList_append, htext, readExponent?_cons, if_pos (.inl rfl)]
  rcases lt_or_ge e 0 with hneg | hpos
  · rw [if_pos hneg]
    show readPower? true ds = _
    rw [readPower?_digits hds hne, hvalue, if_pos rfl, Option.some.injEq, Prod.mk.injEq]
    exact ⟨by omega, rfl⟩
  · rw [if_neg (not_lt.2 hpos)]
    show readPower? false ds = _
    rw [readPower?_digits hds hne, hvalue, if_neg Bool.false_ne_true, Option.some.injEq, Prod.mk.injEq]
    exact ⟨by omega, rfl⟩

theorem readWhole?_chars (hp : p.WellFormed) {rest : List Char} (hrest : Stops rest) :
    readWhole? (p.whole ++ rest) = some (p.whole, rest) := by
  rcases hp.first with hzero | ⟨d, ds, hwhole, hd⟩
  · rw [hzero]
    rfl
  · have htake := takeDigits_stop hp.whole hrest
    have hdigit := hp.whole d (by rw [hwhole]; exact List.mem_cons_self ..)
    rw [hwhole] at htake ⊢
    simp [readWhole?, hdigit, ← htake]

theorem stops_chars (p : Parted) : Stops (fractionChars p.fraction ++ powerChars p.power) := by
  unfold fractionChars
  split
  · exact stops_powerChars p.power
  · rintro c hc
    obtain rfl := Option.some.inj hc
    rfl

theorem readNumber_chars (hp : p.WellFormed) (negative : Bool) : readNumber negative p.chars =
    .ok (.float (floatOfDecimal negative p.decimal.digits p.decimal.exponent), []) := by
  rw [readNumber, chars, readWhole?_chars hp (stops_chars p)]
  simp only [readFraction_chars hp]
  rcases hpower : p.power with _ | e
  · have hfraction : ¬ (p.fraction.isEmpty = true) := by
      simpa [hpower] using hp.marked
    have hnone : readExponent? [] = none := rfl
    simp [hnone, hfraction, powerChars, decimal, hpower]
  · simp [readExponent?_chars, decimal, hpower]

theorem value_decimal {n k : Nat} {e : Int} (hdigits : digitsValue (p.whole ++ p.fraction) = n * 10 ^ k)
    (he : p.power.getD 0 - p.fraction.length + k = e) : p.decimal.value = Decimal.value ⟨n, e⟩ := by
  rw [decimal, Decimal.value, Decimal.value, hdigits, ← he, zpow_add₀ (by norm_num), zpow_natCast]
  push_cast
  ring

end Parted

/-! ## Printed decimals -/

/-- Is the text that of a float in parts, and are these read as a decimal of the same value? -/
def ReadsLike (text : String) (d : Decimal) : Prop :=
  ∃ p : Parted, p.WellFormed ∧ text.toList = p.chars ∧ p.decimal.value = d.value

section

variable {n : Nat} {c : Char} {cs : List Char} (hdigits : Nat.toDigits 10 n = c :: cs) (hc : c ≠ '0') {e : Int}

theorem isDigit_of_mem_zeros {k : Nat} {d : Char} (hd : d ∈ List.replicate k '0') : d.isDigit = true := by
  rw [List.eq_of_mem_replicate hd]
  rfl

include hdigits

theorem isDigit_of_mem {d : Char} (hd : d ∈ c :: cs) : d.isDigit = true := isDigit_of_mem_toDigits (hdigits ▸ hd)

theorem digitsValue_cons : digitsValue (c :: cs) = n := hdigits ▸ digitsValue_toDigits n

theorem readsLike_below (hpoint : (c :: cs).length + e ≤ 0) :
    ReadsLike ("0." ++ zeros (-((c :: cs).length + e)).toNat ++ String.ofList (c :: cs)) ⟨n, e⟩ := by
  refine ⟨⟨['0'], List.replicate (-((c :: cs).length + e)).toNat '0' ++ c :: cs, none⟩,
    ⟨by simp, .inl rfl, ?_, .inl (by simp)⟩, ?_, Parted.value_decimal (k := 0) ?_ ?_⟩
  · exact List.forall_mem_append.2 ⟨fun d => isDigit_of_mem_zeros, fun d => isDigit_of_mem hdigits⟩
  · simp [Parted.chars, fractionChars, powerChars, zeros]
  · have hzero : digitsValue ['0'] = 0 := rfl
    rw [digitsValue_append, digitsValue_append, digitsValue_zeros, digitsValue_cons hdigits, hzero]
    ring
  · simp only [Option.getD_none, List.length_append, List.length_replicate]
    omega

include hc

theorem readsLike_whole (hpoint : (c :: cs).length ≤ (c :: cs).length + e) :
    ReadsLike (String.ofList (c :: cs) ++ zeros ((c :: cs).length + e - (c :: cs).length).toNat ++ ".0") ⟨n, e⟩ := by
  rw [add_sub_cancel_left]
  refine ⟨⟨c :: cs ++ List.replicate e.toNat '0', ['0'], none⟩,
    ⟨?_, .inr ⟨c, _, rfl, hc⟩, by simp, .inl (by simp)⟩, ?_, Parted.value_decimal (k := e.toNat + 1) ?_ ?_⟩
  · exact List.forall_mem_append.2 ⟨fun d => isDigit_of_mem hdigits, fun d => isDigit_of_mem_zeros⟩
  · simp [Parted.chars, fractionChars, powerChars, zeros]
  · have hzero : digitsValue ['0'] = 0 := rfl
    rw [digitsValue_append, digitsValue_append, digitsValue_zeros, digitsValue_cons hdigits, hzero,
      List.length_replicate, List.length_singleton]
    ring
  · simp only [Option.getD_none, List.length_singleton]
    omega

theorem readsLike_inside {k : Nat} (hk : (c :: cs).length + e = (k + 1 : Nat)) (hlt : k + 1 < (c :: cs).length) :
    ReadsLike (String.ofList ((c :: cs).take (k + 1)) ++ "." ++ String.ofList ((c :: cs).drop (k + 1))) ⟨n, e⟩ := by
  have hinside : k < cs.length := by simpa using hlt
  have hdrop : (c :: cs).drop (k + 1) ≠ [] := by simpa using hinside
  refine ⟨⟨(c :: cs).take (k + 1), (c :: cs).drop (k + 1), none⟩,
    ⟨fun d hd => isDigit_of_mem hdigits (List.mem_of_mem_take hd), .inr ⟨c, cs.take k, rfl, hc⟩,
      fun d hd => isDigit_of_mem hdigits (List.mem_of_mem_drop hd), .inl hdrop⟩, ?_,
    Parted.value_decimal (k := 0) ?_ ?_⟩
  · simp [Parted.chars, fractionChars, powerChars, hinside]
  · rw [List.take_append_drop, digitsValue_cons hdigits]
    ring
  · simp only [Option.getD_none, List.length_drop]
    omega

theorem readsLike_scientific : ReadsLike (String.ofList ((c :: cs).take 1)
    ++ (if ((c :: cs).drop 1).isEmpty then "" else "." ++ String.ofList ((c :: cs).drop 1)) ++ "e"
    ++ exponentText ((c :: cs).length + e - 1)) ⟨n, e⟩ := by
  refine ⟨⟨[c], cs, some ((c :: cs).length + e - 1)⟩,
    ⟨?_, .inr ⟨c, [], rfl, hc⟩, fun d hd => isDigit_of_mem hdigits (List.mem_cons_of_mem _ hd), .inr (by simp)⟩, ?_,
    Parted.value_decimal (k := 0) ?_ ?_⟩
  · exact fun d hd => isDigit_of_mem hdigits (List.mem_singleton.1 hd ▸ List.mem_cons_self ..)
  · rw [Parted.chars, fractionChars, powerChars]
    rcases cs with _ | ⟨d, ds⟩ <;> simp
  · rw [List.singleton_append, digitsValue_cons hdigits]
    ring
  · simp only [Option.getD_some, List.length_cons]
    omega

end

/-- The text of a decimal is read as a decimal of the same value. -/
theorem readsLike_text {d : Decimal} (hd : 0 < d.digits) : ReadsLike (d.text .transport) d := by
  rcases d with ⟨n, e⟩
  have hn : 0 < n := hd
  obtain ⟨c, cs, hdigits, hc⟩ : ∃ c cs, Nat.toDigits 10 n = c :: cs ∧ c ≠ '0' := by
    rcases hdigits : Nat.toDigits 10 n with _ | ⟨c, cs⟩
    · exact absurd hdigits Nat.toDigits_ne_nil
    · exact ⟨c, cs, rfl, fun hc => toDigits_ne_zero_cons hn cs (by rw [hdigits, hc])⟩
  unfold Decimal.text
  simp only [hdigits]
  split
  · split
    · next hpoint => exact readsLike_below hdigits hpoint
    split
    · next hpoint => exact readsLike_whole hdigits hc hpoint
    · next hinside hpoint =>
      obtain ⟨k, hk⟩ : ∃ k : Nat, ((c :: cs).length + e).toNat = k + 1 := ⟨((c :: cs).length + e).toNat - 1, by omega⟩
      rw [hk]
      exact readsLike_inside hdigits hc (by omega) (by omega)
  · exact readsLike_scientific hdigits hc

/-! ## Texts of floats -/

/-- The sign of a text is read with what follows. -/
theorem readAtom_sign (negative : Bool) {c : Char} (hc : c.isDigit = true) (cs : List Char) :
    readAtom ((if negative then "-" else "").toList ++ c :: cs) = readNumber negative (c :: cs) := by
  cases negative
  · exact readAtom_digit hc cs
  · exact readAtom_minus hc cs

theorem readAtom_readsLike {text : String} {d : Decimal} {f : Float} (negative : Bool) (h : ReadsLike text d)
    (hf : ∀ read : Decimal, read.value = d.value → floatOfDecimal negative read.digits read.exponent = f) :
    readAtom ((if negative then "-" else "") ++ text).toList = .ok (.float f, []) := by
  obtain ⟨p, hp, htext, hvalue⟩ := h
  obtain ⟨c, cs, hwhole, hc⟩ : ∃ c cs, p.whole = c :: cs ∧ c.isDigit = true := by
    rcases hp.first with hzero | ⟨d, ds, hwhole, -⟩
    · exact ⟨'0', [], hzero, rfl⟩
    · exact ⟨d, ds, hwhole, hp.whole d (hwhole ▸ List.mem_cons_self ..)⟩
  have hread := Parted.readNumber_chars hp negative
  rw [Parted.chars, hwhole, List.cons_append] at hread
  rw [String.toList_append, htext, Parted.chars, hwhole, List.cons_append, readAtom_sign negative hc, hread, hf _ hvalue]

/-- A float is read back from its text. -/
theorem readAtom_floatText (f : Float) : readAtom (floatText .transport f).toList = .ok (.float f, []) := by
  unfold floatText
  simp only
  split
  · next q hzero =>
    have hbits := floatOfBits_magnitudeBits hzero
    have hread (negative : Bool) : readAtom ((if negative then "-" else "") ++ "0.0").toList =
        .ok (.float (floatOfBits negative 0), []) := by
      cases negative <;> rfl
    rw [hread]
    exact congrArg (fun g => Except.ok (Value.float g, [])) hbits
  · next m q hne hmagnitude =>
    have hm : 0 < m := Nat.pos_of_ne_zero hne
    have hc := canonical_of_magnitude? hmagnitude
    have hrounds := Decimal.roundsTo_shortest hc hm
    refine readAtom_readsLike _ (readsLike_text (Decimal.digits_pos hm hrounds)) fun read hvalue => ?_
    rw [Decimal.floatOfDecimal_eq hc hm _ (by rwa [hvalue]), floatOfBits_magnitudeBits hmagnitude]
  · next hnone =>
    have hf := eq_of_magnitude?_none hnone
    split
    · next hmantissa =>
      rw [if_pos hmantissa] at hf
      generalize Exact.signBit f = negative at hf ⊢
      rw [hf]
      cases negative <;> rfl
    · next hmantissa =>
      rw [if_neg hmantissa] at hf
      rw [hf]
      rfl

end Winnow.Json
