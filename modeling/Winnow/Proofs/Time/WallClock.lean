import Winnow.Proofs.Time.Calendar
import Winnow.Proofs.Time.IsoText
/-! # Wall clocks in texts

The text of a moment starts with the reading of its wall clock, in fields of fixed width from the year
down. So texts are ordered as the readings are, and by what is written of the offset only where the
readings are the same. -/

namespace Winnow

variable {w p q : Nat} {s t : List Char}

/-! ## Numbers of one width -/

theorem ofDigitChars_cons_zero (c : Char) (ds : List Char) : Nat.ofDigitChars 10 (c :: ds) 0 =
    10 ^ ds.length * (c.toNat - 48) + Nat.ofDigitChars 10 ds 0 := by
  rw [Nat.ofDigitChars_cons, Nat.ofDigitChars_eq_ofDigitChars_zero, Nat.mul_zero, Nat.zero_add]
  rfl

theorem ofDigitChars_lt {ds : List Char} (hds : ∀ c ∈ ds, c.isDigit = true) :
    Nat.ofDigitChars 10 ds 0 < 10 ^ ds.length := by
  induction ds with
  | nil => simp
  | cons c ds ih =>
    obtain ⟨hc, hrest⟩ := List.forall_mem_cons.1 hds
    have hdigit : c.toNat - 48 ≤ 9 := Nat.sub_le_of_le_add (Char.isDigit_iff_toNat.1 hc).2
    have hhead := Nat.mul_le_mul_left (10 ^ ds.length) hdigit
    have hbelow := ih hrest
    rw [ofDigitChars_cons_zero, List.length_cons, Nat.pow_succ]
    omega

/-- Digits are ordered as the numbers they stand for. -/
theorem digits_append_lt_iff {ds es : List Char} (hlen : ds.length = es.length)
    (hds : ∀ c ∈ ds, c.isDigit = true) (hes : ∀ c ∈ es, c.isDigit = true) :
    ds ++ s < es ++ t ↔ Nat.ofDigitChars 10 ds 0 < Nat.ofDigitChars 10 es 0 ∨ ds = es ∧ s < t := by
  induction ds generalizing es with
  | nil =>
    obtain rfl := List.length_eq_zero_iff.1 hlen.symm
    simp
  | cons c ds ih =>
    rcases es with _ | ⟨e, es⟩
    · cases hlen
    have hlen : ds.length = es.length := Nat.succ.inj hlen
    obtain ⟨hc, hds⟩ := List.forall_mem_cons.1 hds
    obtain ⟨he, hes⟩ := List.forall_mem_cons.1 hes
    have hbelow := ofDigitChars_lt hds
    have hbelow' := ofDigitChars_lt hes
    have hchar : c < e ↔ c.toNat - 48 < e.toNat - 48 := by
      have hc' : 48 ≤ c.toNat := (Char.isDigit_iff_toNat.1 hc).1
      rw [show c < e ↔ c.toNat < e.toNat from Iff.rfl]
      omega
    rw [List.cons_append, List.cons_append, List.cons_lt_cons_iff, ih hlen hds hes, ofDigitChars_cons_zero,
      ofDigitChars_cons_zero, hlen, List.cons.injEq]
    rw [hlen] at hbelow
    -- the first digits decide, being worth more than all the others together
    rcases Nat.lt_trichotomy (c.toNat - 48) (e.toNat - 48) with hlt | heq | hgt
    · have hle := Nat.mul_le_mul_left (10 ^ es.length) (Nat.succ_le_of_lt hlt)
      rw [Nat.mul_succ] at hle
      simp only [hchar.2 hlt, true_or, true_iff]
      exact .inl (by omega)
    · have heq : c = e := by
        refine Char.toNat_inj.1 ?_
        have hc' : 48 ≤ c.toNat := (Char.isDigit_iff_toNat.1 hc).1
        have he' : 48 ≤ e.toNat := (Char.isDigit_iff_toNat.1 he).1
        omega
      subst heq
      simp
    · have hle := Nat.mul_le_mul_left (10 ^ es.length) (Nat.succ_le_of_lt hgt)
      rw [Nat.mul_succ] at hle
      have hne : c ≠ e := by
        rintro rfl
        omega
      simp only [hne, false_and, or_false, hchar]
      omega

theorem padded_append_lt_iff (hw : 0 < w) (hp : p < 10 ^ w) (hq : q < 10 ^ w) :
    (padded w p).toList ++ s < (padded w q).toList ++ t ↔ p < q ∨ p = q ∧ s < t := by
  have hlen : (padded w p).toList.length = (padded w q).toList.length := by
    rw [length_padded hw hp, length_padded hw hq]
  rw [digits_append_lt_iff hlen (fun _ => isDigit_of_mem_padded) fun _ => isDigit_of_mem_padded,
    ofDigitChars_padded, ofDigitChars_padded]
  refine or_congr_right (and_congr_left fun _ => ?_)
  constructor
  · intro h
    rw [← ofDigitChars_padded (w := w) (n := p), h, ofDigitChars_padded]
  · rintro rfl
    rfl

/-! ## Days -/

namespace Date

theorem day_le (d : Date) : 1 ≤ d.day ∧ d.day ≤ daysInMonth d.year d.month := by
  have hvalid := d.isDay
  simp only [Winnow.isDay, Bool.and_eq_true, decide_eq_true_eq] at hvalid
  exact ⟨hvalid.1.2, hvalid.2⟩

theorem month_le (d : Date) : 1 ≤ d.month ∧ d.month ≤ 12 := by
  have hvalid := d.isDay
  simp only [Winnow.isDay, Bool.and_eq_true, decide_eq_true_eq] at hvalid
  exact ⟨hvalid.1.1.1.2, hvalid.1.1.2⟩

theorem year_pos (d : Date) : 1 ≤ d.year := by
  have hvalid := d.isDay
  simp only [Winnow.isDay, Bool.and_eq_true, decide_eq_true_eq] at hvalid
  exact hvalid.1.1.1.1.1

variable {d d' : Date}

/-- A day of a later year has a larger number. -/
theorem ordinal_lt_of_year_lt (h : d.year < d'.year) : d.ordinal < d'.ordinal := by
  have hwithin := daysBeforeMonth_mono d.year (Nat.le_add_left 1 d.month)
    (show d.month + 1 ≤ 13 from Nat.succ_le_succ d.month_le.2)
  have hnext := daysBeforeYear_mono (Nat.le_add_left 1 d.year) (Nat.succ_le_of_lt h)
  rw [daysBeforeMonth_succ d.year d.month_le.1, daysBeforeMonth_end] at hwithin
  rw [daysBeforeYear_succ d.year_pos] at hnext
  have hday := d.day_le.2
  have hday' := d'.day_le.1
  rw [ordinal, ordinal]
  omega

/-- So does one of a later month. -/
theorem ordinal_lt_of_month_lt (hyear : d.year = d'.year) (h : d.month < d'.month) : d.ordinal < d'.ordinal := by
  have hnext := daysBeforeMonth_mono d.year (Nat.le_add_left 1 d.month) (Nat.succ_le_of_lt h)
  rw [daysBeforeMonth_succ d.year d.month_le.1] at hnext
  have hday := d.day_le.2
  have hday' := d'.day_le.1
  rw [ordinal, ordinal, ← hyear]
  omega

/-- Days are numbered in the order of year, month and day. -/
theorem ordinal_lt_iff : d.ordinal < d'.ordinal ↔ d.year < d'.year ∨ d.year = d'.year ∧
    (d.month < d'.month ∨ d.month = d'.month ∧ d.day < d'.day) := by
  rcases Nat.lt_trichotomy d.year d'.year with hyear | hyear | hyear
  · have := ordinal_lt_of_year_lt hyear
    omega
  · rcases Nat.lt_trichotomy d.month d'.month with hmonth | hmonth | hmonth
    · have := ordinal_lt_of_month_lt hyear hmonth
      omega
    · rw [ordinal, ordinal, hyear, hmonth]
      omega
    · have := ordinal_lt_of_month_lt hyear.symm hmonth
      omega
  · have := ordinal_lt_of_year_lt hyear
    omega

theorem ordinal_inj (h : d.ordinal = d'.ordinal) : d = d' := by
  have hle : ¬d.ordinal < d'.ordinal := by omega
  have hge : ¬d'.ordinal < d.ordinal := by omega
  rw [ordinal_lt_iff] at hle hge
  obtain ⟨year, month, day, _⟩ := d
  obtain ⟨year', month', day', _⟩ := d'
  simp only [Date.mk.injEq] at *
  omega

theorem compare_ne_gt_iff : d.compare d' ≠ .gt ↔ d.ordinal ≤ d'.ordinal := by
  have hgt : d.compare d' = .gt ↔ d'.ordinal < d.ordinal := by
    simp only [compare, Ordering.then_eq_gt, compare_gt_iff_gt, compare_eq_iff_eq, ordinal_lt_iff]
    omega
  rw [Ne, hgt, Nat.not_lt]

end Date

/-! ## Clock readings -/

namespace IsoText

/-- What is written of an offset: nothing, or a sign first. -/
def IsOffsetText (cs : List Char) : Prop := cs = [] ∨ ∃ sign rest, cs = sign :: rest ∧ (sign = '+' ∨ sign = '-')

theorem dateIso_append_lt_iff {d d' : Date} :
    d.iso.toList ++ s < d'.iso.toList ++ t ↔ d.ordinal < d'.ordinal ∨ d = d' ∧ s < t := by
  obtain ⟨hyear, hmonth, hday⟩ := date_bounds d
  obtain ⟨hyear', hmonth', hday'⟩ := date_bounds d'
  have heq : d = d' ↔ d.year = d'.year ∧ d.month = d'.month ∧ d.day = d'.day := by
    cases d
    cases d'
    simp
  simp only [toList_dateIso, List.append_assoc, List.cons_append, Date.ordinal_lt_iff, heq,
    padded_append_lt_iff (w := 4) (by decide) hyear hyear', List.cons_lt_cons_iff,
    padded_append_lt_iff (w := 2) (by decide) hmonth hmonth',
    padded_append_lt_iff (w := 2) (by decide) hday hday', Char.lt_irrefl, true_and, false_or]
  tauto

/-- The microseconds, which are written when there are any, decide before the offset does. -/
theorem micro_append_lt_iff {m n : Nat} (hm : m < 10 ^ 6) (hn : n < 10 ^ 6) (hs : IsOffsetText s)
    (ht : IsOffsetText t) :
    (if m ≠ 0 then '.' :: (padded 6 m).toList else []) ++ s <
      (if n ≠ 0 then '.' :: (padded 6 n).toList else []) ++ t ↔ m < n ∨ m = n ∧ s < t := by
  have hdot {cs ds : List Char} (hcs : IsOffsetText cs) : cs < '.' :: ds := by
    rcases hcs with rfl | ⟨sign, rest, rfl, rfl | rfl⟩
    · exact List.nil_lt_cons ..
    · exact List.cons_lt_cons_iff.2 (.inl (by decide))
    · exact List.cons_lt_cons_iff.2 (.inl (by decide))
  by_cases hm0 : m = 0 <;> by_cases hn0 : n = 0
  · simp [hm0, hn0]
  · simp [hm0, hn0, hdot hs, Nat.pos_of_ne_zero hn0]
  · simp [hm0, hn0, List.lt_asymm (hdot ht)]
  · simp [hm0, hn0, padded_append_lt_iff (w := 6) (by decide) hm hn]

end IsoText

namespace Moment
open IsoText

variable {a b : Moment}

theorem offsetChars_isOffsetText (m : Moment) : IsOffsetText m.offsetChars := by
  unfold offsetChars
  split
  · refine .inr ⟨_, _, toList_offsetText _, ?_⟩
    split
    · exact .inr rfl
    · exact .inl rfl
  · exact .inl rfl

theorem toList_isoWith_blank (m : Moment) : (m.isoWith " ").toList =
    m.date.iso.toList ++ ' ' :: (clockText true m.clock ++ m.offsetChars) := by
  rcases m with ⟨date, hour, minute, second, micro, _ | offset, _, _⟩ <;>
    by_cases hm : micro = 0 <;> simp [isoWith, offsetChars, clockText, clock, hm]

theorem clock_bounds (m : Moment) : m.hour < 24 ∧ m.minute < 60 ∧ m.second < 60 ∧ m.micro < 10 ^ 6 := by
  have hreading := m.isReading
  simp only [Winnow.isReading, Bool.and_eq_true, decide_eq_true_eq] at hreading
  omega

theorem reading_eq (m : Moment) : m.reading = m.date.ordinal * 86400000000 + m.hour * 3600000000 +
    m.minute * 60000000 + m.second * 1000000 + m.micro := rfl

theorem reading_eq_iff : a.reading = b.reading ↔ a.date = b.date ∧ a.clock = b.clock := by
  have ha := a.clock_bounds
  have hb := b.clock_bounds
  have hdate : a.date = b.date ↔ a.date.ordinal = b.date.ordinal := ⟨congrArg _, Date.ordinal_inj⟩
  rw [reading_eq, reading_eq, clock, clock, Clock.mk.injEq, hdate]
  omega

theorem reading_lt_iff : a.reading < b.reading ↔ a.date.ordinal < b.date.ordinal ∨ a.date = b.date ∧
    (a.hour < b.hour ∨ a.hour = b.hour ∧ (a.minute < b.minute ∨ a.minute = b.minute ∧
      (a.second < b.second ∨ a.second = b.second ∧ a.micro < b.micro))) := by
  have ha := a.clock_bounds
  have hb := b.clock_bounds
  have hdate : a.date = b.date ↔ a.date.ordinal = b.date.ordinal := ⟨congrArg _, Date.ordinal_inj⟩
  rw [reading_eq, reading_eq, hdate]
  omega

/-- Texts are ordered as the readings, and by the offsets' texts where the readings are the same. -/
theorem isoWith_blank_lt_iff : a.isoWith " " < b.isoWith " " ↔
    a.reading < b.reading ∨ a.reading = b.reading ∧ a.offsetChars < b.offsetChars := by
  obtain ⟨hhour, hminute, hsecond, hmicro⟩ := a.clock_bounds
  obtain ⟨hhour', hminute', hsecond', hmicro'⟩ := b.clock_bounds
  have hpair {m n : Nat} (hm : m < 60) (hn : n < 60) {s t : List Char} :=
    padded_append_lt_iff (w := 2) (s := s) (t := t) (by decide) (show m < 10 ^ 2 by omega) (show n < 10 ^ 2 by omega)
  rw [String.lt_iff, toList_isoWith_blank, toList_isoWith_blank, dateIso_append_lt_iff, reading_lt_iff,
    reading_eq_iff, clock, clock, Clock.mk.injEq]
  simp only [clockText, if_true, List.append_assoc, List.cons_append, List.cons_lt_cons_iff, Char.lt_irrefl,
    true_and, false_or, hpair (Nat.lt_trans hhour (by decide)) (Nat.lt_trans hhour' (by decide)),
    hpair hminute hminute', hpair hsecond hsecond',
    micro_append_lt_iff hmicro hmicro' a.offsetChars_isOffsetText b.offsetChars_isOffsetText]
  tauto

end Moment

end Winnow
