import Mathlib
import Winnow.Time.IsoText
/-! # ISO texts read back

A day is read back from its text as it is. So is a moment, but for an offset of less than a second, which
is read back as none: `Moment.readBack`. The texts themselves tell all moments apart. Both follow from one
law on clock readings, since a time of day and an offset are written alike. -/

namespace Winnow

/-! ## Padded numbers -/

variable {w n : Nat}

theorem toList_padded (w n : Nat) :
    (padded w n).toList = List.replicate (w - (Nat.toDigits 10 n).length) '0' ++ Nat.toDigits 10 n := by
  simp [padded, Nat.toList_repr, ← String.length_toList]

theorem length_padded (hw : 0 < w) (hn : n < 10 ^ w) : (padded w n).toList.length = w := by
  have hle := (Nat.length_toDigits_le_iff (b := 10) (by decide) hw).2 hn
  rw [toList_padded, List.length_append, List.length_replicate]
  omega

theorem isDigit_of_mem_padded {c : Char} (h : c ∈ (padded w n).toList) : c.isDigit = true := by
  rw [toList_padded] at h
  rcases List.mem_append.1 h with h | h
  · rw [List.eq_of_mem_replicate h]
    rfl
  · exact Nat.isDigit_of_mem_toDigits (by decide) (by decide) h

theorem ofDigitChars_padded : Nat.ofDigitChars 10 (padded w n).toList 0 = n := by
  rw [toList_padded, Nat.ofDigitChars_append, Nat.ofDigitChars_replicate_zero, Nat.mul_zero,
    Nat.ofDigitChars_ten_toDigits]

namespace IsoText

theorem number?_digits (ds rest : List Char) (hd : ∀ c ∈ ds, c.isDigit = true) :
    number? ds.length (ds ++ rest) = some (Nat.ofDigitChars 10 ds 0, rest) := by
  induction ds with
  | nil => rfl
  | cons c ds ih =>
    have hc : c.isDigit = true := hd c (List.mem_cons_self ..)
    have hrest := ih fun c' hc' => hd c' (List.mem_cons_of_mem _ hc')
    rw [Nat.ofDigitChars_cons, Nat.ofDigitChars_eq_ofDigitChars_zero, List.length_cons, List.cons_append,
      number?, if_pos hc, hrest]
    simp [Nat.mul_comm]

theorem number?_padded (hw : 0 < w) (hn : n < 10 ^ w) (rest : List Char) :
    number? w ((padded w n).toList ++ rest) = some (n, rest) := by
  have hread := number?_digits (padded w n).toList rest fun _ => isDigit_of_mem_padded
  rwa [length_padded hw hn, ofDigitChars_padded] at hread

/-- Two digits of a number, and how they are read. -/
theorem padded_two (hn : n < 100) : ∃ a b, (padded 2 n).toList = [a, b] ∧ a.isDigit = true ∧
    b.isDigit = true ∧ ∀ rest, number? 2 (a :: b :: rest) = some (n, rest) := by
  have hlen := length_padded (w := 2) (by decide) hn
  obtain ⟨a, b, hab⟩ := List.length_eq_two.1 hlen
  have hdigit (c : Char) (hc : c ∈ [a, b]) : c.isDigit = true := isDigit_of_mem_padded (hab ▸ hc)
  refine ⟨a, b, hab, hdigit a (by simp), hdigit b (by simp), fun rest => ?_⟩
  have hread := number?_padded (w := 2) (by decide) hn rest
  rwa [hab] at hread

theorem ne_of_isDigit {c d : Char} (hc : c.isDigit = true) (hd : d.isDigit = false := by rfl) : c ≠ d := by
  intro h
  rw [h, hd] at hc
  cases hc

/-! ## Days -/

theorem toList_dateIso (d : Date) : d.iso.toList =
    (padded 4 d.year).toList ++ '-' :: ((padded 2 d.month).toList ++ '-' :: (padded 2 d.day).toList) := by
  simp [Date.iso, toString]

theorem date_bounds (d : Date) : d.year < 10 ^ 4 ∧ d.month < 100 ∧ d.day < 100 := by
  have hday := d.isDay
  simp only [isDay, Bool.and_eq_true, decide_eq_true_eq] at hday
  have hmonth : daysInMonth d.year d.month ≤ 31 := by
    unfold daysInMonth
    split
    · split <;> decide
    all_goals decide
  omega

theorem length_dateIso (d : Date) : d.iso.toList.length = 10 := by
  obtain ⟨hyear, hmonth, hday⟩ := date_bounds d
  have h4 := length_padded (w := 4) (by decide) hyear
  have h2 := length_padded (w := 2) (by decide) hmonth
  have h2' := length_padded (w := 2) (by decide) hday
  simp only [toList_dateIso, List.length_append, List.length_cons]
  omega

theorem readDay?_iso (d : Date) : readDay? d.iso.toList = some d := by
  obtain ⟨hyear, hmonth, hday⟩ := date_bounds d
  obtain ⟨a, b, hab, ha, -, hreadMonth⟩ := padded_two hmonth
  obtain ⟨a', b', hab', -, -, hreadDay⟩ := padded_two hday
  have hweek : a ≠ 'W' := ne_of_isDigit ha
  have hmake : Date.make? d.year d.month d.day = some d := dif_pos d.isDay
  rw [toList_dateIso, hab, hab']
  simp only [readDay?, number?_padded (w := 4) (by decide) hyear, Option.bind_eq_bind,
    Option.bind_some, List.cons_append, List.nil_append]
  split
  · next h => exact absurd (List.cons.inj h).1 hweek
  · simp only [hreadMonth, hreadDay, Option.bind_some, if_true, hmake]

/-! ## Clock readings -/

/-- `HH:MM`, with the seconds where they are shown and the microseconds where there are any. -/
def clockText (showSeconds : Bool) (c : Clock) : List Char :=
  (padded 2 c.hour).toList ++ ':' :: ((padded 2 c.minute).toList ++
    ((if showSeconds then ':' :: (padded 2 c.second).toList else []) ++
      (if c.micro ≠ 0 then '.' :: (padded 6 c.micro).toList else [])))

/-- Are the numbers of the reading short enough for their places, and is what is not shown zero? -/
structure Clock.Written (showSeconds : Bool) (c : Clock) : Prop where
  hour : c.hour < 100
  minute : c.minute < 100
  second : c.second < 100
  micro : c.micro < 10 ^ 6
  shown : showSeconds = false → c.second = 0 ∧ c.micro = 0

variable {showSeconds : Bool} {c : Clock}

theorem readParts?_pair (n : Nat) (found : List Nat) {k : Nat} (hk : k < 100) (rest : List Char) :
    readParts? true (n + 1) found (':' :: ((padded 2 k).toList ++ rest)) =
      readParts? true n (found ++ [k]) rest := by
  obtain ⟨a, b, hab, -, -, hread⟩ := padded_two hk
  rw [hab]
  simp [readParts?, hread]

theorem readParts?_fraction (found : List Nat) (hn : n < 10 ^ 6) :
    readParts? true 0 found ('.' :: (padded 6 n).toList) = some (found, .fraction (padded 6 n).toList) := by
  have hlen := length_padded (w := 6) (by decide) hn
  rcases hds : (padded 6 n).toList with _ | ⟨d, ds⟩
  · rw [hds] at hlen
    cases hlen
  · simp [readParts?]

theorem readFraction?_padded (follows : Bool) (hn : n < 10 ^ 6) :
    readFraction? follows (padded 6 n).toList = some n := by
  have hread := number?_padded (w := 6) (by decide) hn []
  have hlen := length_padded (w := 6) (by decide) hn
  rw [List.append_nil] at hread
  simp [readFraction?, hlen, hread, isOver]

theorem readClock?_clockText (hc : c.Written showSeconds) (follows : Bool) :
    readClock? follows (clockText showSeconds c) = some c := by
  obtain ⟨hour, minute, second, micro⟩ := c
  obtain ⟨hhour, hminute, hsecond, hmicro, hshown⟩ := hc
  simp only at hhour hminute hsecond hmicro hshown
  cases showSeconds with
  | false =>
    obtain ⟨rfl, rfl⟩ := hshown rfl
    have hpair := readParts?_pair 1 [] hminute []
    rw [List.append_nil] at hpair
    simp [clockText, readClock?, number?_padded (w := 2) (by decide) hhour, hpair, readParts?]
  | true =>
    rcases Nat.eq_zero_or_pos micro with rfl | hpos
    · have hpair := readParts?_pair 0 [minute] hsecond []
      rw [List.append_nil] at hpair
      simp [clockText, readClock?, number?_padded (w := 2) (by decide) hhour,
        readParts?_pair 1 [] hminute, hpair, readParts?]
    · simp [clockText, readClock?, number?_padded (w := 2) (by decide) hhour,
        readParts?_pair 1 [] hminute, readParts?_pair 0 [minute] hsecond, readParts?_fraction _ hmicro,
        readFraction?_padded follows hmicro, Nat.pos_iff_ne_zero.1 hpos]

theorem not_isOffsetMark_of_mem_clockText {d : Char} (h : d ∈ clockText showSeconds c) :
    isOffsetMark d = false := by
  have hdigit {w n : Nat} (h : d ∈ (padded w n).toList) : isOffsetMark d = false := by
    have hd := isDigit_of_mem_padded h
    simp [isOffsetMark, ne_of_isDigit (d := '+') hd, ne_of_isDigit (d := '-') hd, ne_of_isDigit (d := 'Z') hd]
  simp only [clockText, List.mem_append, List.mem_cons] at h
  rcases h with h | rfl | h | h | h
  · exact hdigit h
  · rfl
  · exact hdigit h
  · split at h
    · rcases List.mem_cons.1 h with rfl | h
      · rfl
      · exact hdigit h
    · cases h
  · split at h
    · rcases List.mem_cons.1 h with rfl | h
      · rfl
      · exact hdigit h
    · cases h

theorem length_clockText_le (hc : c.Written showSeconds) : (clockText showSeconds c).length ≤ 15 := by
  have h2 {n : Nat} (hn : n < 100) : (padded 2 n).toList.length = 2 := length_padded (by decide) hn
  have h6 : (padded 6 c.micro).toList.length = 6 := length_padded (by decide) hc.micro
  simp only [clockText, List.length_append, List.length_cons, h2 hc.hour, h2 hc.minute]
  have hseconds : (if showSeconds then ':' :: (padded 2 c.second).toList else []).length ≤ 3 := by
    split
    · exact Nat.succ_le_succ (Nat.le_of_eq (h2 hc.second))
    · exact Nat.zero_le _
  have hmicro : (if c.micro ≠ 0 then '.' :: (padded 6 c.micro).toList else []).length ≤ 7 := by
    split
    · exact Nat.succ_le_succ (Nat.le_of_eq h6)
    · exact Nat.zero_le _
  omega

/-! ## Offsets -/

/-- The size of an offset as a clock reading. -/
def offsetClock (offset : Int) : Clock where
  hour := offset.natAbs / 3600000000
  minute := offset.natAbs / 60000000 % 60
  second := offset.natAbs / 1000000 % 60
  micro := offset.natAbs % 1000000

/-- Are the seconds of an offset shown? -/
def showsSeconds (offset : Int) : Bool :=
  (offsetClock offset).second ≠ 0 ∨ (offsetClock offset).micro ≠ 0

theorem toList_offsetText (offset : Int) : (offsetText offset).toList =
    (if offset < 0 then '-' else '+') :: clockText (showsSeconds offset) (offsetClock offset) := by
  have hsign : (if offset < 0 then "-" else "+").toList = [if offset < 0 then '-' else '+'] := by
    split <;> rfl
  by_cases hs : offset.natAbs / 1000000 % 60 = 0 <;> by_cases hm : offset.natAbs % 1000000 = 0 <;>
    simp [offsetText, clockText, showsSeconds, offsetClock, hsign, hs, hm]

theorem isOffset_natAbs {offset : Int} (h : isOffset offset = true) : offset.natAbs < 86400000000 := by
  have hday : wholeDay = 86400000000 := rfl
  simp only [isOffset, Bool.and_eq_true, decide_eq_true_eq, hday] at h
  omega

theorem offsetClock_written {offset : Int} (h : isOffset offset = true) :
    (offsetClock offset).Written (showsSeconds offset) := by
  have hsize := isOffset_natAbs h
  refine ⟨?_, ?_, ?_, ?_, fun hshow => ?_⟩
  · show offset.natAbs / 3600000000 < 100
    omega
  · show offset.natAbs / 60000000 % 60 < 100
    omega
  · show offset.natAbs / 1000000 % 60 < 100
    omega
  · show offset.natAbs % 1000000 < 10 ^ 6
    omega
  · simpa [showsSeconds] using hshow

/-- An offset is known by its sign and its size. -/
theorem offset_eq_of_clock {a b : Int} (hsign : a < 0 ↔ b < 0) (h : offsetClock a = offsetClock b) :
    a = b := by
  simp only [offsetClock, Clock.mk.injEq] at h
  omega

end IsoText

/-- An offset as it is read back: one of less than a second is none at all. -/
def offsetReadBack (offset : Int) : Int := if offset.natAbs < 1000000 then 0 else offset

theorem isOffset_offsetReadBack {offset : Option Int} (h : offset.all isOffset = true) :
    (offset.map offsetReadBack).all isOffset = true := by
  rcases offset with _ | offset
  · rfl
  · simp only [Option.map_some, Option.all_some, offsetReadBack]
    split
    · rfl
    · exact h

namespace IsoText

/-- The size of an offset as it is read from a clock reading. -/
def offsetSize (o : Clock) : Int :=
  let seconds : Int := o.hour * hour + o.minute * minute + o.second * second
  if seconds = 0 then 0 else seconds + o.micro

theorem offsetSize_offsetClock (offset : Int) :
    offsetSize (offsetClock offset) = if offset.natAbs < 1000000 then 0 else (offset.natAbs : Int) := by
  have hsum : ((offsetClock offset).hour * hour + (offsetClock offset).minute * minute +
      (offsetClock offset).second * second : Int) = offset.natAbs / 1000000 * 1000000 := by
    simp only [offsetClock, hour, minute, second]
    omega
  have hmicro : (offsetClock offset).micro = offset.natAbs % 1000000 := rfl
  simp only [offsetSize, hsum, hmicro]
  split <;> split <;> omega

theorem signed_offsetSize (offset : Int) :
    (if offset < 0 then -offsetSize (offsetClock offset) else offsetSize (offsetClock offset)) =
      offsetReadBack offset := by
  rw [offsetSize_offsetClock, offsetReadBack]
  split <;> split <;> omega

end IsoText

namespace Moment
open IsoText

/-- The moment that the text of a moment is read as. -/
def readBack (m : Moment) : Moment :=
  { m with offset := m.offset.map offsetReadBack, isOffset := isOffset_offsetReadBack m.isOffset }

/-- Is the offset, if there is one, zero or at least a second? -/
def KeepsOffset (m : Moment) : Prop := ∀ offset ∈ m.offset, offset = 0 ∨ 1000000 ≤ offset.natAbs

theorem readBack_eq_self_iff {m : Moment} : m.readBack = m ↔ m.KeepsOffset := by
  rcases m with ⟨date, hour, minute, second, micro, _ | offset, _, _⟩
  · simp [readBack, KeepsOffset]
  · simp only [readBack, KeepsOffset, offsetReadBack, Option.map_some, Moment.mk.injEq, true_and,
      Option.some.injEq, Option.mem_def, forall_eq']
    split <;> omega

/-- The reading of a moment's clock. -/
def clock (m : Moment) : Clock := ⟨m.hour, m.minute, m.second, m.micro⟩

theorem clock_written (m : Moment) : m.clock.Written true := by
  have hreading := m.isReading
  simp only [Winnow.isReading, Bool.and_eq_true, decide_eq_true_eq] at hreading
  refine ⟨?_, ?_, ?_, ?_, fun h => by cases h⟩ <;> simp only [clock] <;> omega

/-- The offset as it is written. -/
def offsetChars (m : Moment) : List Char :=
  match m.offset with
  | some offset => (offsetText offset).toList
  | none => []

theorem toList_iso (m : Moment) :
    m.iso.toList = m.date.iso.toList ++ 'T' :: (clockText true m.clock ++ m.offsetChars) := by
  rcases m with ⟨date, hour, minute, second, micro, _ | offset, _, _⟩ <;>
    by_cases hm : micro = 0 <;> simp [iso, isoWith, offsetChars, clockText, clock, hm]

theorem offsetChars_eq_nil_or (m : Moment) : m.offsetChars = [] ∨
    ∃ sign rest, m.offsetChars = sign :: rest ∧ isOffsetMark sign = true := by
  unfold offsetChars
  split
  · refine .inr ⟨_, _, toList_offsetText _, ?_⟩
    split <;> rfl
  · exact .inl rfl

theorem offset_inj {m m' : Moment} (h : m.offsetChars = m'.offsetChars) : m.offset = m'.offset := by
  unfold offsetChars at h
  rcases ho : m.offset with _ | a <;> rcases ho' : m'.offset with _ | b <;>
    simp only [ho, ho', toList_offsetText, List.cons.injEq, reduceCtorEq] at h
  · rfl
  have hvalid : Winnow.isOffset a = true := by simpa [ho] using m.isOffset
  have hvalid' : Winnow.isOffset b = true := by simpa [ho'] using m'.isOffset
  obtain ⟨hsign, hclock⟩ := h
  have hread := readClock?_clockText (offsetClock_written hvalid) true
  rw [hclock, readClock?_clockText (offsetClock_written hvalid')] at hread
  have hneg : a < 0 ↔ b < 0 := by
    by_cases ha : a < 0 <;> by_cases hb : b < 0 <;> simp [ha, hb] at hsign ⊢
  rw [offset_eq_of_clock hneg (Option.some.inj hread).symm]

/-- The clock reading ends where the offset begins. -/
theorem split_clockText (m : Moment) {p : Char → Bool} (hp : p = fun d => !isOffsetMark d) :
    (clockText true m.clock ++ m.offsetChars).takeWhile p = clockText true m.clock ∧
      (clockText true m.clock ++ m.offsetChars).dropWhile p = m.offsetChars := by
  subst hp
  have hclock (d : Char) (hd : d ∈ clockText true m.clock) : (!isOffsetMark d) = true := by
    rw [not_isOffsetMark_of_mem_clockText hd]
    rfl
  rw [List.takeWhile_append_of_pos hclock, List.dropWhile_append_of_pos hclock]
  rcases m.offsetChars_eq_nil_or with h | ⟨sign, rest, h, hsign⟩
  · simp [h]
  · simp [h, hsign]

theorem readTime?_iso (m : Moment) :
    readTime? (clockText true m.clock ++ m.offsetChars) = some (m.clock, m.readBack.offset) := by
  obtain ⟨htake, hdrop⟩ := m.split_clockText rfl
  have hclock := readClock?_clockText m.clock_written
  simp only [readTime?, htake, hdrop, hclock, Option.bind_eq_bind, Option.bind_some]
  rcases hoffset : m.offset with _ | offset
  · simp [offsetChars, readBack, hoffset]
  have hvalid : Winnow.isOffset offset = true := by simpa [hoffset] using m.isOffset
  have hread := readClock?_clockText (offsetClock_written hvalid) false
  have hchars : m.offsetChars = (if offset < 0 then '-' else '+') ::
      clockText (showsSeconds offset) (offsetClock offset) := by
    rw [offsetChars, hoffset]
    exact toList_offsetText offset
  have hresult : m.readBack.offset = some (offsetReadBack offset) := congrArg (Option.map _) hoffset
  rw [hchars, hresult, ← signed_offsetSize offset]
  by_cases hneg : offset < 0
  · simp [if_pos hneg, hread, offsetSize]
  · simp [if_neg hneg, hread, offsetSize]

theorem dayLength_iso (m : Moment) : dayLength m.iso.toList = 10 := by
  have hlen := length_dateIso m.date
  have hlong : m.iso.toList.length ≠ 7 := by
    rw [toList_iso, List.length_append, hlen]
    omega
  obtain ⟨hyear, hmonth, -⟩ := date_bounds m.date
  have h4 := length_padded (w := 4) (by decide) hyear
  obtain ⟨a, b, hab, ha, -, -⟩ := padded_two hmonth
  have hdash : m.iso.toList[4]? = some '-' := by
    rw [toList_iso, toList_dateIso]
    simp [h4]
  have hdigit : m.iso.toList[5]? = some a := by
    rw [toList_iso, toList_dateIso, hab]
    simp [List.getElem?_append_right, h4]
  have hweek : a ≠ 'W' := ne_of_isDigit ha
  simp [dayLength, hlong, hdash, hdigit, hweek]

theorem ofIso?_iso (m : Moment) : ofIso? m.iso = some m.readBack := by
  have hlen := length_dateIso m.date
  have htext := m.toList_iso
  have hlong : 7 ≤ m.iso.toList.length := by
    rw [htext, List.length_append, hlen]
    omega
  have htake : m.iso.toList.take 10 = m.date.iso.toList := by rw [htext, ← hlen, List.take_left]
  have hdrop : m.iso.toList.drop 10 = 'T' :: (clockText true m.clock ++ m.offsetChars) := by
    rw [htext, ← hlen, List.drop_left]
  have hmake : make? m.date m.hour m.minute m.second m.micro m.readBack.offset = some m.readBack :=
    dif_pos ⟨m.isReading, m.readBack.isOffset⟩
  simp only [ofIso?, dayLength_iso, htake, readDay?_iso, hdrop, readTime?_iso, guard, if_pos hlong,
    Option.bind_eq_bind]
  exact hmake

/-- Texts tell moments apart, with offsets however small. -/
theorem iso_inj {m m' : Moment} (h : m.iso = m'.iso) : m = m' := by
  have htext : m.date.iso.toList ++ 'T' :: (clockText true m.clock ++ m.offsetChars) =
      m'.date.iso.toList ++ 'T' :: (clockText true m'.clock ++ m'.offsetChars) := by
    rw [← toList_iso, ← toList_iso, h]
  obtain ⟨hdate, htime⟩ := List.append_inj htext (by rw [length_dateIso, length_dateIso])
  have htime := (List.cons.inj htime).2
  have hdate : m.date = m'.date := by
    have hread := readDay?_iso m.date
    rw [hdate, readDay?_iso] at hread
    exact (Option.some.inj hread).symm
  have hclock : m.clock = m'.clock := by
    have htake := (m.split_clockText rfl).1
    rw [htime, (m'.split_clockText rfl).1] at htake
    have hread := readClock?_clockText m.clock_written true
    rw [← htake, readClock?_clockText m'.clock_written] at hread
    exact (Option.some.inj hread).symm
  have hchars : m.offsetChars = m'.offsetChars := by
    have hdrop := (m.split_clockText rfl).2
    rw [htime, (m'.split_clockText rfl).2] at hdrop
    exact hdrop.symm
  have hoffset : m.offset = m'.offset := offset_inj hchars
  obtain ⟨date, hour, minute, second, micro, offset, _, _⟩ := m
  obtain ⟨date', hour', minute', second', micro', offset', _, _⟩ := m'
  simp only [clock, Clock.mk.injEq] at hclock
  obtain ⟨rfl, rfl, rfl, rfl⟩ := hclock
  obtain rfl := hdate
  obtain rfl := hoffset
  rfl

/-- Half past two in the afternoon, with an offset. -/
def halfPastTwo (offset : Int) (h : Winnow.isOffset offset = true) : Moment where
  date := ⟨2024, 6, 12, by decide⟩
  hour := 14
  minute := 30
  second := 0
  micro := 0
  offset := some offset
  isOffset := h

end Moment

/-- A character takes at most four bytes. -/
theorem utf8ByteSize_ofList_le (cs : List Char) : (String.ofList cs).utf8ByteSize ≤ 4 * cs.length := by
  induction cs with
  | nil => exact Nat.zero_le _
  | cons c cs ih =>
    have hc := c.utf8Size_le_four
    rw [String.ofList_cons, String.utf8ByteSize_append, String.utf8ByteSize_singleton, List.length_cons]
    omega

theorem Moment.utf8ByteSize_iso_le (m : Moment) : m.iso.utf8ByteSize ≤ 168 := by
  have hclock := IsoText.length_clockText_le m.clock_written
  have hoffset : m.offsetChars.length ≤ 16 := by
    unfold offsetChars
    split
    · next offset h =>
      have hvalid : Winnow.isOffset offset = true := by simpa [h] using m.isOffset
      have hlen := IsoText.length_clockText_le (IsoText.offsetClock_written hvalid)
      rw [IsoText.toList_offsetText, List.length_cons]
      omega
    · exact Nat.zero_le _
  have hlen : m.iso.toList.length ≤ 42 := by
    rw [toList_iso, List.length_append, List.length_cons, List.length_append, IsoText.length_dateIso]
    omega
  have hsize := utf8ByteSize_ofList_le m.iso.toList
  rw [String.ofList_toList] at hsize
  omega

theorem utf8ByteSize_ofList_of_ascii (cs : List Char) (h : ∀ c ∈ cs, c.toNat < 128) :
    (String.ofList cs).utf8ByteSize = cs.length := by
  induction cs with
  | nil => rfl
  | cons c cs ih =>
    have hsmall : c.toNat < 128 := h c (List.mem_cons_self ..)
    have hone : c.utf8Size = 1 := by
      rw [Char.utf8Size_eq_one_iff, UInt32.le_iff_toNat_le]
      show c.toNat ≤ 127
      omega
    rw [String.ofList_cons, String.utf8ByteSize_append, String.utf8ByteSize_singleton, hone,
      ih fun c' hc' => h c' (List.mem_cons_of_mem _ hc'), List.length_cons, Nat.add_comm]

theorem isAscii_of_mem_dateIso {d : Date} {c : Char} (h : c ∈ d.iso.toList) : c.toNat < 128 := by
  have hdigit {w n : Nat} (h : c ∈ (padded w n).toList) : c.toNat < 128 := by
    have hc := isDigit_of_mem_padded h
    simp only [Char.isDigit, Bool.and_eq_true, decide_eq_true_eq, UInt32.le_iff_toNat_le] at hc
    have hle : c.toNat ≤ 57 := hc.2
    omega
  rw [IsoText.toList_dateIso, List.mem_append, List.mem_cons, List.mem_append, List.mem_cons] at h
  rcases h with h | rfl | h | rfl | h
  · exact hdigit h
  · decide
  · exact hdigit h
  · decide
  · exact hdigit h

theorem Date.utf8ByteSize_iso (d : Date) : d.iso.utf8ByteSize = 10 := by
  rw [← String.ofList_toList (s := d.iso),
    utf8ByteSize_ofList_of_ascii _ fun c hc => isAscii_of_mem_dateIso hc, IsoText.length_dateIso]

theorem Date.ofIso?_iso (d : Date) : ofIso? d.iso = some d := by
  rw [ofIso?, utf8ByteSize_iso, if_pos (by decide), IsoText.readDay?_iso]

theorem Date.iso_inj {d d' : Date} (h : d.iso = d'.iso) : d = d' := by
  have hread := d.ofIso?_iso
  rw [h, ofIso?_iso] at hread
  exact (Option.some.inj hread).symm

end Winnow
