import Winnow.Order.Sorting
import Winnow.Proofs.Time.WallClock
import Winnow.Proofs.Value.Symmetry
/-! # The order of sort keys

Two values compare the opposite way from the other side, in either direction. On scalars, dates and moments
the order is a total preorder but for one arrangement: two moments with offsets are ordered by their
instants, and each is ordered by its wall clock against a moment without one. Where the wall clocks run
against the instants and the clock of a moment without offset stands between them, there is a cycle. -/

namespace Winnow

namespace Value

variable {a b c : Value} {caseSensitive : Bool}

/-! ## The other side -/

theorem compareAlike_swap (ha : a.Proper) (hb : b.Proper) : compareAlike b a = (compareAlike a b).swap := by
  have hlt : relate? .lt b a = relate? .gt a b := relate?_converse .gt ha hb
  have hgt : relate? .gt b a = relate? .lt a b := relate?_converse .lt ha hb
  rw [compareAlike, compareAlike, hlt, hgt]
  rcases relate?_consistent a b with h | ⟨before, behind, h, h', hboth⟩
  · simp only [h]
    exact Std.OrientedOrd.eq_swap
  · simp only [h, h']
    cases before <;> cases behind <;> simp_all

theorem Proper.sortForm (h : a.Proper) : (a.sortForm caseSensitive).Proper := by
  unfold Value.sortForm
  split
  · split
    · exact h
    · exact (throughout_atom rfl).2 trivial
  · exact h

theorem comparePresent_swap (ha : a.Proper) (hb : b.Proper) :
    comparePresent caseSensitive b a = (comparePresent caseSensitive a b).swap := by
  unfold comparePresent
  by_cases hrank : a.sortRank = b.sortRank
  · rw [if_pos hrank, if_pos hrank.symm, compareAlike_swap ha.sortForm hb.sortForm]
  · rw [if_neg hrank, if_neg fun h => hrank h.symm]
    exact Std.OrientedOrd.eq_swap

theorem compareIn_swap (direction : Direction) (ha : a.Proper) (hb : b.Proper) :
    compareIn direction caseSensitive b a = (compareIn direction caseSensitive a b).swap := by
  unfold compareIn
  cases a.isAbsent <;> cases b.isAbsent <;> try rfl
  cases direction
  · exact comparePresent_swap ha hb
  · exact congrArg Ordering.swap (comparePresent_swap ha hb)

/-! ## Directions -/

theorem comparePresent_ne_gt_iff : comparePresent caseSensitive a b ≠ .gt ↔ a.sortRank < b.sortRank ∨
    a.sortRank = b.sortRank ∧ compareAlike (a.sortForm caseSensitive) (b.sortForm caseSensitive) ≠ .gt := by
  unfold comparePresent
  by_cases hrank : a.sortRank = b.sortRank
  · simp [hrank]
  · rw [if_neg hrank, compare_le_iff_le]
    omega

/-- The order is transitive in either direction where values that are there are ordered transitively. -/
theorem compareIn_trans (direction : Direction) (ha : a.Proper) (hb : b.Proper) (hc : c.Proper)
    (habc : a.isAbsent = false → comparePresent caseSensitive a b ≠ .gt →
      comparePresent caseSensitive b c ≠ .gt → comparePresent caseSensitive a c ≠ .gt)
    (hcba : c.isAbsent = false → comparePresent caseSensitive c b ≠ .gt →
      comparePresent caseSensitive b a ≠ .gt → comparePresent caseSensitive c a ≠ .gt)
    (hab : compareIn direction caseSensitive a b ≠ .gt) (hbc : compareIn direction caseSensitive b c ≠ .gt) :
    compareIn direction caseSensitive a c ≠ .gt := by
  unfold compareIn at *
  cases haa : a.isAbsent <;> cases hba : b.isAbsent <;> cases hca : c.isAbsent <;>
    simp only [haa, hba, hca] at hab hbc ⊢ <;> try simp at hab hbc ⊢
  cases direction with
  | ascending => exact habc haa hab hbc
  | descending =>
    simp only [← comparePresent_swap ha hb, ← comparePresent_swap hb hc, ← comparePresent_swap ha hc] at hab hbc ⊢
    exact hcba hca hbc hab

/-! ## Values of one kind -/

theorem compareAlike_of_relate {o : Ordering} (h : ∀ r, relate? r a b = some (r.holds o)) :
    compareAlike a b = o := by
  cases o <;> simp [compareAlike, h, Relation.holds]

theorem compareAlike_numbers_ne_gt_iff {x y : Exact} (ha : a.number? = some x) (hb : b.number? = some y)
    (hx : x ≠ .nan) (hy : y ≠ .nan) : compareAlike a b ≠ .gt ↔ x.place ≤ y.place := by
  obtain ⟨o, hxy, ho⟩ := Exact.exists_compare hx hy
  have hrelate (r : Relation) : relate? r a b = some (r.holds o) := by
    have hatoms : relate? r a b = relateAtoms r a b := by
      cases a with
      | list _ | tuple _ => cases ha
      | _ => rfl
    rw [hatoms, relateAtoms_of_numbers r ha hb, hxy]
    rfl
  rw [compareAlike_of_relate hrelate, ho.ne_gt]

theorem compareAlike_texts (s t : String) : compareAlike (text s) (text t) = compare s t :=
  compareAlike_of_relate fun _ => rfl

theorem compareAlike_dates (d d' : Date) : compareAlike (date d) (date d') = d.compare d' :=
  compareAlike_of_relate fun _ => rfl

end Value

namespace Moment

/-- Does the first moment stand before the second one, or level with it? -/
def SortsBefore (a b : Moment) : Prop :=
  match a.offset, b.offset with
  | none, none => a.reading ≤ b.reading
  | some _, some _ => a.instant ≤ b.instant
  | some _, none => a.reading < b.reading
  | none, some _ => a.reading ≤ b.reading

theorem compareAlike_ne_gt_iff (a b : Moment) :
    Value.compareAlike (.moment a) (.moment b) ≠ .gt ↔ a.SortsBefore b := by
  have hordered {o : Ordering} (h : a.compare b = some o) : Value.compareAlike (.moment a) (.moment b) = o :=
    Value.compareAlike_of_relate fun r => congrArg (Option.map r.holds) h
  have hread (h : a.compare b = none) :
      Value.compareAlike (.moment a) (.moment b) = Ord.compare (a.isoWith " ") (b.isoWith " ") := by
    have hnone : Value.relate? .lt (.moment a) (.moment b) = none := congrArg (Option.map _) h
    rw [Value.compareAlike, hnone]
    rfl
  have hnone {m : Moment} (h : m.offset = none) : m.offsetChars = [] := by
    rw [offsetChars, h]
  have hsome {x : Int} {m : Moment} (h : m.offset = some x) : [] < m.offsetChars := by
    rw [offsetChars, h]
    simp [IsoText.toList_offsetText]
  unfold SortsBefore
  rcases ha : a.offset with _ | x <;> rcases hb : b.offset with _ | y
  · rw [hordered (by rw [compare, ha, hb]), compare_le_iff_le]
  · rw [hread (by rw [compare, ha, hb]), compare_le_iff_le, ← not_lt, isoWith_blank_lt_iff, hnone ha]
    simp
  · rw [hread (by rw [compare, ha, hb]), compare_le_iff_le, ← not_lt, isoWith_blank_lt_iff, hnone hb]
    simp only [hsome ha, and_true]
    omega
  · rw [hordered (by rw [compare, ha, hb]), compare_le_iff_le]

/-- Are the first two ordered by their instants, their wall clocks the other way, and does the clock of the
third one, which has no offset, stand between? -/
structure ClocksCross (x y n : Moment) : Prop where
  offsets : x.offset.isSome = true ∧ y.offset.isSome = true ∧ n.offset = none
  instants : x.instant ≤ y.instant
  after : y.reading < n.reading
  before : n.reading ≤ x.reading

variable {x y n : Moment}

theorem ClocksCross.cycle (h : ClocksCross x y n) : x.SortsBefore y ∧ y.SortsBefore n ∧ ¬x.SortsBefore n := by
  obtain ⟨⟨hx, hy, hn⟩, hinstants, hafter, hbefore⟩ := h
  obtain ⟨_, hx⟩ := Option.isSome_iff_exists.1 hx
  obtain ⟨_, hy⟩ := Option.isSome_iff_exists.1 hy
  simp only [SortsBefore, hx, hy, hn]
  omega

/-- There is no other cycle. -/
theorem SortsBefore.trans_or (hxy : x.SortsBefore y) (hyn : y.SortsBefore n) :
    x.SortsBefore n ∨ ClocksCross x y n ∨ ClocksCross y n x ∨ ClocksCross n x y := by
  by_contra hnot
  simp only [not_or] at hnot
  obtain ⟨hxn, h₁, h₂, h₃⟩ := hnot
  have hcross {a b c : Moment} (h : ¬ClocksCross a b c) (ha : a.offset.isSome = true) (hb : b.offset.isSome = true)
      (hc : c.offset = none) : ¬(a.instant ≤ b.instant ∧ b.reading < c.reading ∧ c.reading ≤ a.reading) :=
    fun hall => h ⟨⟨ha, hb, hc⟩, hall.1, hall.2.1, hall.2.2⟩
  replace h₁ := hcross h₁
  replace h₂ := hcross h₂
  replace h₃ := hcross h₃
  unfold SortsBefore at *
  rcases hx : x.offset with _ | _ <;> rcases hy : y.offset with _ | _ <;> rcases hn : n.offset with _ | _ <;>
    simp only [hx, hy, hn, Option.isSome, true_implies, reduceCtorEq, false_implies] at * <;> omega

end Moment

namespace Value

/-! ## Scalars, dates and moments -/

/-- Is the value null, missing, a flag, a number other than a float that is none, a text, a date or a moment? -/
def IsSortable : Value → Prop
  | null | missing | bool _ | int _ | text _ | date _ | moment _ => True
  | float f => Exact.ofFloat f ≠ .nan
  | _ => False

theorem IsSortable.proper {v : Value} (h : v.IsSortable) : v.Proper := by
  cases v with
  | null | missing | bool _ | int _ | float _ | text _ | date _ | moment _ => exact (throughout_atom rfl).2 trivial
  | _ => cases h

theorem number_of_sortRank {v : Value} (h : v.IsSortable) (hrank : v.sortRank = 0 ∨ v.sortRank = 4) :
    ∃ x, v.number? = some x ∧ x ≠ .nan := by
  cases v with
  | bool _ | int _ => exact ⟨_, rfl, nofun⟩
  | float _ => exact ⟨_, rfl, h⟩
  | _ => simp [sortRank] at hrank

theorem text_of_sortRank {v : Value} (hrank : v.sortRank = 1) : ∃ s, v = text s := by
  cases v with
  | text s => exact ⟨s, rfl⟩
  | _ => simp [sortRank] at hrank

theorem moment_of_sortRank {v : Value} (hrank : v.sortRank = 2) : ∃ m, v = moment m := by
  cases v with
  | moment m => exact ⟨m, rfl⟩
  | _ => simp [sortRank] at hrank

theorem date_of_sortRank {v : Value} (hrank : v.sortRank = 3) : ∃ d, v = date d := by
  cases v with
  | date d => exact ⟨d, rfl⟩
  | _ => simp [sortRank] at hrank

theorem sortForm_eq_self {v : Value} (hrank : v.sortRank ≠ 1) : v.sortForm caseSensitive = v := by
  cases v with
  | text _ => exact absurd rfl hrank
  | _ => rfl

theorem sortForm_text (s : String) :
    (text s).sortForm caseSensitive = text (if caseSensitive then s else Text.lowercase s) := by
  cases caseSensitive <;> rfl

variable {S : Set Value}

/-- Values of one rank other than moments are ordered by a place that each has for itself, on the line of
numbers, in the dictionary or in the calendar. -/
theorem comparePresent_trans (hS : ∀ v ∈ S, v.IsSortable)
    (hcross : ∀ x y n : Moment, moment x ∈ S → moment y ∈ S → moment n ∈ S → ¬x.ClocksCross y n)
    (ha : a ∈ S) (hb : b ∈ S) (hc : c ∈ S) (hpresent : a.isAbsent = false)
    (hab : comparePresent caseSensitive a b ≠ .gt) (hbc : comparePresent caseSensitive b c ≠ .gt) :
    comparePresent caseSensitive a c ≠ .gt := by
  rw [comparePresent_ne_gt_iff] at hab hbc ⊢
  rcases hab with hab | ⟨hrank, hab⟩
  · rcases hbc with hbc | ⟨hrank', -⟩
    · exact .inl (Nat.lt_trans hab hbc)
    · exact .inl (hrank' ▸ hab)
  rcases hbc with hbc | ⟨hrank', hbc⟩
  · exact .inl (hrank ▸ hbc)
  refine .inr ⟨hrank.trans hrank', ?_⟩
  have hranks : (a.sortRank = 0 ∨ a.sortRank = 4) ∨ a.sortRank = 1 ∨ a.sortRank = 2 ∨ a.sortRank = 3 := by
    have hsortable := hS a ha
    cases a with
    | null | missing => cases hpresent
    | bool _ | int _ | float _ | text _ | moment _ | date _ => simp [sortRank]
    | _ => cases hsortable
  rcases hranks with hnumber | htext | hmoment | hdate
  · have hform {v : Value} (hv : v.sortRank = 0 ∨ v.sortRank = 4) : v.sortForm caseSensitive = v :=
      sortForm_eq_self (by omega)
    have hnumber' := hrank ▸ hnumber
    have hnumber'' := hrank' ▸ hnumber'
    obtain ⟨x, hx, hxn⟩ := number_of_sortRank (hS a ha) hnumber
    obtain ⟨y, hy, hyn⟩ := number_of_sortRank (hS b hb) hnumber'
    obtain ⟨z, hz, hzn⟩ := number_of_sortRank (hS c hc) hnumber''
    rw [hform hnumber, hform hnumber', compareAlike_numbers_ne_gt_iff hx hy hxn hyn] at hab
    rw [hform hnumber', hform hnumber'', compareAlike_numbers_ne_gt_iff hy hz hyn hzn] at hbc
    rw [hform hnumber, hform hnumber'', compareAlike_numbers_ne_gt_iff hx hz hxn hzn]
    exact le_trans hab hbc
  · obtain ⟨s, rfl⟩ := text_of_sortRank htext
    obtain ⟨t, rfl⟩ := text_of_sortRank hrank.symm
    obtain ⟨u, rfl⟩ := text_of_sortRank hrank'.symm
    simp only [sortForm_text, compareAlike_texts, compare_le_iff_le] at hab hbc ⊢
    exact le_trans hab hbc
  · obtain ⟨x, rfl⟩ := moment_of_sortRank hmoment
    obtain ⟨y, rfl⟩ := moment_of_sortRank hrank.symm
    obtain ⟨z, rfl⟩ := moment_of_sortRank hrank'.symm
    simp only [sortForm, Moment.compareAlike_ne_gt_iff] at hab hbc ⊢
    rcases Moment.SortsBefore.trans_or hab hbc with h | h | h | h
    · exact h
    · exact absurd h (hcross x y z ha hb hc)
    · exact absurd h (hcross y z x hb hc ha)
    · exact absurd h (hcross z x y hc ha hb)
  · obtain ⟨x, rfl⟩ := date_of_sortRank hdate
    obtain ⟨y, rfl⟩ := date_of_sortRank hrank.symm
    obtain ⟨z, rfl⟩ := date_of_sortRank hrank'.symm
    simp only [sortForm, compareAlike_dates, Date.compare_ne_gt_iff] at hab hbc ⊢
    exact le_trans hab hbc

theorem compareIn_moments_ne_gt_iff (x y : Moment) :
    (compareIn .ascending caseSensitive (moment x) (moment y) ≠ .gt ↔ x.SortsBefore y) ∧
      (compareIn .descending caseSensitive (moment x) (moment y) ≠ .gt ↔ y.SortsBefore x) := by
  have hup (x y : Moment) : comparePresent caseSensitive (moment x) (moment y) ≠ .gt ↔ x.SortsBefore y := by
    simp [comparePresent_ne_gt_iff, sortForm, Moment.compareAlike_ne_gt_iff, sortRank]
  have hproper (m : Moment) : (moment m).Proper := (throughout_atom rfl).2 trivial
  refine ⟨hup x y, ?_⟩
  rw [← hup y x, comparePresent_swap (hproper x) (hproper y)]
  rfl

/-- An hour of the first of January 2024. -/
def newYear (hour : Fin 24) (offset : Option Int) (h : offset.all Winnow.isOffset = true := by decide) : Moment :=
  ⟨⟨2024, 1, 1, by decide⟩, hour, 0, 0, 0, offset, by simp [Winnow.isReading, hour.isLt], h⟩

/-- One value of each kind but for moments with offsets. -/
def oneOfEach : Set Value :=
  {null, missing, bool true, int 1, text "a", date ⟨2024, 1, 1, by decide⟩, moment (newYear 6 none)}

end Value

end Winnow
