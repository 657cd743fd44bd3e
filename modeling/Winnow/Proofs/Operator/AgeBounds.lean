import Winnow.Proofs.Number.Order
import Winnow.Proofs.Operator.Meaning
import Winnow.Proofs.Operator.Operand
import Winnow.Proofs.Operator.Standing
/-! # Bounds on ages

An operand states bounds on ages under `min` and `max`, and might state them under the names of the order operators.
The test of an age heeds the numbers under the first two names and nothing else; a bound under another name, like
one that is no number, leaves every age in. -/

namespace Winnow

/-- Does a relation hold between two places on a line? -/
def Relation.Between {α : Type} [LinearOrder α] : Relation → α → α → Prop
  | lt, a, b => a < b
  | le, a, b => a ≤ b
  | gt, a, b => b < a
  | ge, a, b => b ≤ a

theorem Relation.holds_iff_between {α : Type} [LinearOrder α] {a b : α} {o : Ordering} (h : o.Compares a b)
    (r : Relation) : r.holds o = true ↔ r.Between a b := by
  cases o with
  | lt => cases r <;> simp [holds, Between, show a < b from h, le_of_lt, not_lt_of_gt]
  | eq =>
    obtain rfl : a = b := h
    cases r <;> simp [holds, Between]
  | gt => cases r <;> simp [holds, Between, show b < a from h, le_of_lt, not_lt_of_gt]

variable {es es' : List (Value × Value)} {path : String} {operand : Operand} {unit : AgeUnit} {t : Terms}

/-! ## What is stated -/

/-- A bound on ages: how they have to stand to a limit. -/
structure AgeBound where
  relation : Relation
  limit : Value

namespace AgeBound

/-- Is the limit a number? -/
def IsNumber (b : AgeBound) : Prop := ∃ x, b.limit.number? = some x ∧ x ≠ .nan

/-- Does an age stand to the limit as it has to, on the line of rationals? -/
def Admits (b : AgeBound) (age : Int) : Prop :=
  ∃ x, b.limit.number? = some x ∧ x ≠ .nan ∧ b.relation.Between (Exact.ofInt age).place x.place

theorem admits_int_iff {r : Relation} {n age : Int} : Admits ⟨r, .int n⟩ age ↔ r.Between age n := by
  have hmono := Exact.place_finite_strictMono 0
  have hplaces : r.Between (Exact.ofInt age).place (Exact.ofInt n).place ↔ r.Between age n := by
    cases r
    · exact hmono.lt_iff_lt
    · exact hmono.le_iff_le
    · exact hmono.lt_iff_lt
    · exact hmono.le_iff_le
  simp only [Admits, Value.number?, Option.some.injEq, exists_eq_left', hplaces]
  exact and_iff_right (by simp [Exact.ofInt])

/-- What an operand states under a name. -/
def stated? (es : List (Value × Value)) (name : String) : Option Value :=
  match (Value.get? es name).getD .null with
  | .null => none
  | v => some v

theorem stated?_congr {name : String} (h : Value.get? es' name = Value.get? es name) :
    stated? es' name = stated? es name := by
  rw [stated?, stated?, h]

/-- The names of bounds that ages have of their own. -/
def ownNames : List (String × Relation) := [("min", .ge), ("max", .le)]

/-- The names of the order operators. -/
def operatorNames : List (String × Relation) :=
  Builtin.comparisons.filterMap fun b => b.orderRelation?.map (b.key, ·)

/-- Does an age satisfy all the bounds that are stated under some names? -/
def Satisfies (names : List (String × Relation)) (es : List (Value × Value)) (age : Int) : Prop :=
  ∀ name ∈ names, ∀ limit ∈ stated? es name.1, Admits ⟨name.2, limit⟩ age

/-- Does an age satisfy the bounds under the names of its own, as far as they are numbers? -/
def SatisfiesNumbers (es : List (Value × Value)) (age : Int) : Prop :=
  ∀ name ∈ ownNames, ∀ limit ∈ stated? es name.1, IsNumber ⟨name.2, limit⟩ → Admits ⟨name.2, limit⟩ age

theorem Satisfies.numbers {age : Int} (h : Satisfies (ownNames ++ operatorNames) es age) : SatisfiesNumbers es age :=
  fun name hname limit hlimit _ => h name (List.mem_append_left _ hname) limit hlimit

end AgeBound

open AgeBound

/-- The unit of ages that an operand names. -/
def ageUnit? (es : List (Value × Value)) : Option AgeUnit :=
  match (Value.get? es "unit").getD (.text AgeUnit.years.name) with
  | .text name => AgeUnit.ofName? name
  | _ => none

theorem ageUnit?_congr (h : Value.get? es' "unit" = Value.get? es "unit") : ageUnit? es' = ageUnit? es := by
  rw [ageUnit?, ageUnit?, h]

/-! ## What is accepted -/

namespace Operand.Site

theorem ageBound_eq (s : Site) (key : String) : s.ageBound es key =
    match stated? es key with
    | none => .ok none
    | some v => if isBadAmount v then s.reject (.ageBound key v) else .ok (some v) := by
  unfold ageBound stated?
  rcases (Value.get? es key).getD .null <;> rfl

theorem ageBound_eq_ok_iff {s : Site} {key : String} {b : Option Value} :
    s.ageBound es key = .ok b ↔ b = stated? es key ∧ ∀ v ∈ stated? es key, isBadAmount v = false := by
  rw [ageBound_eq, @eq_comm _ b]
  rcases stated? es key with _ | v
  · simp
  · cases hbad : isBadAmount v <;> simp [hbad, reject]

/-- Of two bounds, as far as they are stated, is the lower one larger? -/
def Crossed (least most : Option Value) : Prop := ∃ a ∈ least, ∃ b ∈ most, a.relate? .gt b = some true

theorem notCrossed_iff {s : Site} {least most : Option Value} {unit : AgeUnit} : (do
      match least, most with
      | some a, some b => if a.relate? .gt b == some true then s.reject .ageOrder
      | _, _ => pure ()
      return Operand.age ⟨least, most, unit⟩) = .ok operand ↔
    ¬Crossed least most ∧ operand = .age ⟨least, most, unit⟩ := by
  rcases least with _ | a <;> rcases most with _ | b
  case some.some =>
    by_cases hcrossed : a.relate? .gt b = some true
    · simp [Crossed, hcrossed, reject]
    · simp [Crossed, hcrossed, @eq_comm _ operand]
  all_goals simp [Crossed, @eq_comm _ operand]

theorem ageRange_eq : ageRange ⟨.object es, path⟩ = (ageUnit? es).elim
    (reject ⟨.object es, path⟩ (.ageUnit ((Value.get? es "unit").getD (.text AgeUnit.years.name))))
    fun unit => do
      let least ← ageBound ⟨.object es, path⟩ es "min"
      let most ← ageBound ⟨.object es, path⟩ es "max"
      match least, most with
      | some a, some b => if a.relate? .gt b == some true then reject ⟨.object es, path⟩ .ageOrder
      | _, _ => pure ()
      return .age ⟨least, most, unit⟩ := by
  simp only [ageRange, ageUnit?]
  generalize (Value.get? es "unit").getD (.text AgeUnit.years.name) = written
  cases written with
  | text name =>
    dsimp only
    cases AgeUnit.ofName? name <;> rfl
  | _ => rfl

/-- Only the unit and the two bounds count. -/
theorem ageRange_eq_ok_iff : ageRange ⟨.object es, path⟩ = .ok operand ↔
    ∃ unit, ageUnit? es = some unit ∧ (∀ v ∈ stated? es "min", isBadAmount v = false) ∧
      (∀ v ∈ stated? es "max", isBadAmount v = false) ∧ ¬Crossed (stated? es "min") (stated? es "max") ∧
      operand = .age ⟨stated? es "min", stated? es "max", unit⟩ := by
  rw [ageRange_eq]
  rcases ageUnit? es with _ | unit
  · simp [reject]
  · simp only [Option.elim_some, Outcome.bind_eq_ok, ageBound_eq_ok_iff, notCrossed_iff]
    grind

end Operand.Site

/-! ## What is tested -/

/-- An age that does not fall short of a limit, or beyond it, satisfies the bound, unless the limit is no number. -/
theorem not_relate?_iff {r r' : Relation} (hr : ∀ o, r'.holds o = !r.holds o) {v : Value} {age : Int}
    (hv : Operand.Site.isBadAmount v = false) :
    ((Value.int age).relate? r v != some true) = true ↔ (IsNumber ⟨r', v⟩ → Admits ⟨r', v⟩ age) := by
  obtain ⟨x, hx, hrelate⟩ : ∃ x, v.number? = some x ∧
      (Value.int age).relate? r v = some (((Exact.ofInt age).compare x).any r.holds) := by
    cases v with
    | int | float => exact ⟨_, rfl, rfl⟩
    | _ => cases hv
  rw [hrelate]
  by_cases hnan : x = .nan
  · -- no relation to NaN holds, so that it keeps no age out
    subst hnan
    simp [IsNumber, Exact.compare, hx, Exact.ofInt]
  · obtain ⟨o, ho, hplaces⟩ := Exact.exists_compare (show Exact.ofInt age ≠ .nan by simp [Exact.ofInt]) hnan
    simp [IsNumber, Admits, hx, hnan, ho, ← Relation.holds_iff_between hplaces, hr]

/-- Does a range let an age in? -/
def AgeRange.letsIn (range : AgeRange) (age : Int) : Bool :=
  range.least.all (fun b => (Value.int age).relate? .lt b != some true) &&
    range.most.all (fun b => (Value.int age).relate? .gt b != some true)

/-- Numbers under the names of its own are what a range goes by. -/
theorem letsIn_iff (hleast : ∀ v ∈ stated? es "min", Operand.Site.isBadAmount v = false)
    (hmost : ∀ v ∈ stated? es "max", Operand.Site.isBadAmount v = false) (age : Int) :
    (AgeRange.mk (stated? es "min") (stated? es "max") unit).letsIn age = true ↔ SatisfiesNumbers es age := by
  have hall (r r' : Relation) (hr : ∀ o, r'.holds o = !r.holds o) {b : Option Value}
      (hb : ∀ v ∈ b, Operand.Site.isBadAmount v = false) :
      b.all (fun v => (Value.int age).relate? r v != some true) = true ↔
        ∀ v ∈ b, IsNumber ⟨r', v⟩ → Admits ⟨r', v⟩ age := by
    rcases b with _ | v
    · simp
    · simpa using not_relate?_iff hr (hb v rfl)
  rw [AgeRange.letsIn, Bool.and_eq_true, hall .lt .ge (by decide) hleast, hall .gt .le (by decide) hmost]
  simp [SatisfiesNumbers, ownNames]

theorem Moment.ordinal_date (m : Moment) : (m.date.ordinal : Int) = m.reading / wholeDay := by
  have hclock := m.clock_bounds
  rw [Moment.reading_eq, show wholeDay = 86400000000 from rfl]
  omega

/-- Does the test of an age pass the values whose ages have a property, wherever the present is known on their clocks?
It is today what the present is on the clock of the value. -/
def TestsAges (operand : Operand) (unit : AgeUnit) (p : Int → Prop) : Prop :=
  ∀ (t : Terms) (actual : Value) (birth : Date) (m : Moment), actual.date? = some birth → actual.moment? = some m →
    ¬t.now.Unplaced m → ¬t.now.PresentLeaves m →
    ∃ today : Date, (today.ordinal : Int) = t.now.readingFor m / wholeDay ∧
      ∃ passes, Builtin.age.test t actual operand = .done (.ok passes) ∧ (passes = true ↔ p (birth.age today unit))

theorem testsAges_letsIn (range : AgeRange) : TestsAges (.age range) range.unit (range.letsIn · = true) := by
  intro t actual birth m hbirth hm hplaced hstays
  obtain ⟨n, hn, hreading, -⟩ := Moment.exists_nowFor hplaced hstays
  refine ⟨n.date, by rw [n.ordinal_date, hreading], range.letsIn (birth.age n.date range.unit), ?_, Iff.rfl⟩
  show Evaluation.done (Builtin.withinAge t actual range) = _
  simp only [Builtin.withinAge, hbirth, hm, hn, Outcome.ok_bind, Outcome.pure_eq, AgeRange.letsIn]

/-- Where the present is not known on the clock of the value, the test has no result. -/
theorem age_test_of_unknown {actual : Value} {m : Moment} (range : AgeRange) (hm : actual.moment? = some m)
    (h : t.now.Unplaced m ∨ t.now.PresentLeaves m) :
    ∃ f, Builtin.age.test t actual (.age range) = .done (.error (.fault f)) := by
  have hnow : ∃ f, t.now.nowFor m = .error (.fault f) := by
    by_cases hplaced : t.now.Unplaced m
    · exact ⟨_, Moment.nowFor_of_unplaced hplaced⟩
    · exact ⟨_, Moment.nowFor_of_leaves hplaced (h.resolve_left hplaced)⟩
  obtain ⟨f, hf⟩ := hnow
  obtain ⟨birth, hbirth⟩ : ∃ birth, actual.date? = some birth := by
    cases actual with
    | date | moment => exact ⟨_, rfl⟩
    | _ => cases hm
  refine ⟨f, ?_⟩
  show Evaluation.done (Builtin.withinAge t actual range) = _
  simp only [Builtin.withinAge, hbirth, hm, hf, Outcome.error_bind]

theorem TestsAges.congr {p q : Int → Prop} (h : TestsAges operand unit p)
    (hpq : ∀ birth today : Date, p (birth.age today unit) ↔ q (birth.age today unit)) :
    TestsAges operand unit q := by
  intro t actual birth m hbirth hm hplaced hstays
  obtain ⟨today, htoday, passes, htest, hpasses⟩ := h t actual birth m hbirth hm hplaced hstays
  exact ⟨today, htoday, passes, htest, hpasses.trans (hpq birth today)⟩

/-- Any two days are those of a birth and of a present. -/
theorem TestsAges.iff {p q : Int → Prop} (hp : TestsAges operand unit p) (hq : TestsAges operand unit q)
    (birth today : Date) : p (birth.age today unit) ↔ q (birth.age today unit) := by
  have hreading : today.toMoment.readingFor birth.toMoment = today.toMoment.reading := by
    simp [Moment.readingFor, Moment.instant, Date.toMoment, Moment.midnight]
  have hplaced : ¬today.toMoment.Unplaced birth.toMoment := by simp [Moment.Unplaced, Date.toMoment, Moment.midnight]
  have hstays : ¬today.toMoment.PresentLeaves birth.toMoment := by
    have hinstant := Moment.instant_of_offset_eq_none (m := today.toMoment) rfl
    rw [Moment.PresentLeaves, hreading, hinstant, or_self]
    exact today.toMoment.not_leavesCalendar
  obtain ⟨day, hday, passes, htest, hpasses⟩ :=
    hp ⟨false, none, today.toMoment, Functions.standard⟩ (.date birth) birth _ rfl rfl hplaced hstays
  obtain ⟨day', hday', passes', htest', hpasses'⟩ :=
    hq ⟨false, none, today.toMoment, Functions.standard⟩ (.date birth) birth _ rfl rfl hplaced hstays
  rw [hreading, ← Moment.ordinal_date, Int.ofNat_inj] at hday hday'
  obtain rfl : day = today := Date.ordinal_inj hday
  obtain rfl : day' = day := Date.ordinal_inj hday'
  rw [htest] at htest'
  cases htest'
  rw [← hpasses, hpasses']

/-! ## Bounds that are heeded -/

/-- An accepted operand is tested by the numbers under the names of its own, so that all its bounds are heeded exactly
when the others leave in every age that these do. Other entries play no part. Where the present is not known on the
clock of the value, there is no result. -/
theorem age_heeds_iff (hcheck : Builtin.age.check (.object es) path = .ok operand) :
    (∀ es', (∀ name ∈ ["unit", "min", "max"], Value.get? es' name = Value.get? es name) →
      Builtin.age.check (.object es') path = .ok operand) ∧
    (∀ t actual m, actual.moment? = some m → t.now.Unplaced m ∨ t.now.PresentLeaves m →
      ∃ f, Builtin.age.test t actual operand = .done (.error (.fault f))) ∧
    ∃ unit, ageUnit? es = some unit ∧ TestsAges operand unit (SatisfiesNumbers es) ∧
      (TestsAges operand unit (Satisfies (ownNames ++ operatorNames) es) ↔
        ∀ birth today : Date, SatisfiesNumbers es (birth.age today unit) →
          Satisfies (ownNames ++ operatorNames) es (birth.age today unit)) := by
  obtain ⟨unit, hunit, hleast, hmost, hcrossed, rfl⟩ := Operand.Site.ageRange_eq_ok_iff.1 hcheck
  have htests : TestsAges (.age ⟨stated? es "min", stated? es "max", unit⟩) unit (SatisfiesNumbers es) :=
    (testsAges_letsIn _).congr fun _ _ => letsIn_iff hleast hmost _
  refine ⟨fun es' hsame => Operand.Site.ageRange_eq_ok_iff.2 ⟨unit, ?_⟩, fun t actual m => ?_, unit, hunit, htests,
    ?_, ?_⟩
  · simp only [List.forall_mem_cons] at hsame
    obtain ⟨hsameUnit, hsameLeast, hsameMost, -⟩ := hsame
    rw [← ageUnit?_congr hsameUnit] at hunit
    rw [← stated?_congr hsameLeast] at hleast
    rw [← stated?_congr hsameMost] at hmost
    rw [← stated?_congr hsameLeast, ← stated?_congr hsameMost] at hcrossed
    exact ⟨hunit, hleast, hmost, hcrossed, by rw [stated?_congr hsameLeast, stated?_congr hsameMost]⟩
  · exact age_test_of_unknown _
  · exact fun h birth today => (htests.iff h birth today).1
  · exact fun h => htests.congr fun birth today => ⟨h birth today, Satisfies.numbers⟩

/-- Of age: at least eighteen years old. -/
def ofAge (name : String) : List (Value × Value) := [(.text name, .int 18)]

theorem age_heeds_iff_min : Builtin.age.check (.object (ofAge "min")) "f" =
      .ok (.age ⟨some (.int 18), none, .years⟩) ∧
    TestsAges (.age ⟨some (.int 18), none, .years⟩) .years (Satisfies (ownNames ++ operatorNames) (ofAge "min")) ∧
    ∀ age, Satisfies (ownNames ++ operatorNames) (ofAge "min") age ↔ 18 ≤ age := by
  have hcheck : Builtin.age.check (.object (ofAge "min")) "f" = .ok (.age ⟨some (.int 18), none, .years⟩) := rfl
  have hstated (age : Int) : Satisfies (ownNames ++ operatorNames) (ofAge "min") age ↔ 18 ≤ age := by
    have hmin : stated? (ofAge "min") "min" = some (.int 18) := rfl
    have hothers : ∀ name ∈ ownNames ++ operatorNames, name ≠ ("min", .ge) → stated? (ofAge "min") name.1 = none := by
      decide
    constructor
    · intro h
      exact admits_int_iff.1 (h ("min", .ge) (by decide) _ hmin)
    · intro h name hname limit hlimit
      by_cases heq : name = ("min", .ge)
      · subst heq
        obtain rfl := Option.some.inj (hmin.symm.trans hlimit)
        exact admits_int_iff.2 h
      · rw [hothers name hname heq] at hlimit
        cases hlimit
  obtain ⟨-, -, unit, hunit, -, hiff⟩ := age_heeds_iff hcheck
  obtain rfl : AgeUnit.years = unit := Option.some.inj hunit
  refine ⟨hcheck, hiff.2 fun birth today h => (hstated _).2 ?_, hstated⟩
  exact admits_int_iff.1 (h ("min", .ge) (by decide) (.int 18) rfl ⟨_, rfl, nofun⟩)

/-- Under the name of an order operator the same bound is accepted, and a child of four passes; and so is a name that
bounds nothing. -/
theorem age_bound_not_heeded :
    Builtin.age.check (.object (ofAge "$gte")) "f" = .ok (.age ⟨none, none, .years⟩) ∧
    Builtin.age.test ⟨false, none, Date.toMoment ⟨2024, 6, 12, by decide⟩, Functions.standard⟩
      (.date ⟨2020, 1, 1, by decide⟩) (.age ⟨none, none, .years⟩) = .done (.ok true) ∧
    (⟨2020, 1, 1, by decide⟩ : Date).age ⟨2024, 6, 12, by decide⟩ .years = 4 ∧
    ¬Satisfies (ownNames ++ operatorNames) (ofAge "$gte") 4 ∧
    Builtin.age.check (.object (ofAge "minimum")) "f" = .ok (.age ⟨none, none, .years⟩) := by
  refine ⟨rfl, rfl, by decide, fun h => ?_, rfl⟩
  have hbound : (18 : Int) ≤ 4 := admits_int_iff.1 (h ("$gte", .ge) (by decide) (.int 18) rfl)
  exact absurd hbound (by decide)

end Winnow
