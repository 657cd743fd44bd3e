import Winnow.Proofs.Outcome
import Winnow.Operator.Operand
/-! # Which operands have a form

The check of an operand gives its form or rejects the expression, except for operands that pass the
check's own conditions and still have no form: patterns with counts or flags that cannot be, relative
times with keys that cannot be listed in order or with no duration, points and distances with whole
numbers too large for a float. `Builtin.Represents` leaves out exactly these. -/

namespace Winnow

variable {α β : Type}

/-- Is the outcome a success or the rejection of an expression? -/
def Documented (r : Outcome α) : Prop := ∀ f, r = .error f → ∃ e part path, f = .expression e part path

@[simp] theorem documented_ok (a : α) : Documented (.ok a) := fun _ h => nomatch h

@[simp] theorem documented_expression (e : ExpressionError) (part : Value) (path : String) :
    Documented (.error (.expression e part path) : Outcome α) :=
  fun _ h => ⟨e, part, path, (Except.error.inj h).symm⟩

@[simp] theorem not_documented_fault (f : Fault) : ¬ Documented (.error (.fault f) : Outcome α) := by
  intro h
  obtain ⟨e, part, path, hf⟩ := h _ rfl
  cases hf

theorem documented_bind {x : Outcome α} {f : α → Outcome β} :
    Documented (x >>= f) ↔ Documented x ∧ ∀ a, x = .ok a → Documented (f a) :=
  Outcome.failsAs_bind

@[simp] theorem documented_map {x : Outcome α} {f : α → β} : Documented (x.map f) ↔ Documented x :=
  Outcome.failsAs_map

/-- A list is checked up to the first item that has no result. -/
theorem documented_mapM {f : α → Outcome β} {xs : List α} :
    Documented (xs.mapM f) ↔
      ∀ pre x post, xs = pre ++ x :: post → (∀ y ∈ pre, ∃ b, f y = .ok b) → Documented (f x) := by
  induction xs with
  | nil => simp [List.mapM_nil]
  | cons a xs ih =>
    rw [List.mapM_cons, documented_bind]
    simp only [documented_bind, Outcome.pure_eq, documented_ok, implies_true, and_true, ih]
    constructor
    · rintro ⟨ha, hrest⟩ pre x post heq hpre
      rcases pre with _ | ⟨y, pre⟩
      · obtain ⟨rfl, -⟩ := List.cons.inj heq
        exact ha
      · obtain ⟨rfl, htail⟩ := List.cons.inj heq
        obtain ⟨b, hb⟩ := hpre a (List.mem_cons_self ..)
        exact hrest b hb pre x post htail fun y hy => hpre y (List.mem_cons_of_mem _ hy)
    · refine fun h => ⟨h [] a xs rfl (fun _ hy => nomatch hy), fun b hb pre x post heq hpre => ?_⟩
      refine h (a :: pre) x post (by rw [heq]; rfl) fun y hy => ?_
      rcases List.mem_cons.1 hy with rfl | hy
      · exact ⟨b, hb⟩
      · exact hpre y hy

/-! ## Patterns -/

/-- Is the source, if it is a pattern at all, one that can be compiled? -/
def Pattern.Compilable (source : String) : Prop :=
  ∀ e, Pattern.make? source 0 = .error e → e = .malformed

/-! ## Points and distances -/

/-- Is the value, if it is a whole number, one with a machine form? -/
def Value.HasMachineForm : Value → Prop
  | .int i => Point.isMachineInt i = true
  | _ => True

/-- Is the value, if it is a whole number that is not negative, one with a float near it? -/
def Value.HasFloat : Value → Prop
  | .int i => 0 ≤ i → ∃ f, floatOfInt? i = some f
  | _ => True

namespace Point

/-- Does the value denote a point? -/
def IsPoint (v : Value) : Prop := ∃ p, ofValue v = .ok (some p)

/-- Can it be said whether the value denotes a point? The longitude counts only beside a latitude. -/
def Readable (v : Value) : Prop :=
  (part v "lat").HasMachineForm ∧
    ((∃ lat, coordinate? (part v "lat") = .ok (some lat)) → (part v "lng").HasMachineForm)

theorem coordinate?_ok {v : Value} : (∃ c, coordinate? v = .ok c) ↔ v.HasMachineForm := by
  cases v with
  | int i =>
    simp only [coordinate?, Value.HasMachineForm]
    split
    · simp [*]
    · simp [*]
  | _ => exact iff_of_true ⟨_, rfl⟩ trivial

theorem coordinate?_error {v : Value} {f : Failure} (h : coordinate? v = .error f) :
    f = .fault .typeMismatch := by
  unfold coordinate? at h
  split at h
  · split at h
    · cases h
    · exact (Except.error.inj h).symm
  · cases h
  · cases h

theorem documented_coordinate? {v : Value} : Documented (coordinate? v) ↔ v.HasMachineForm := by
  rw [← coordinate?_ok]
  rcases h : coordinate? v with f | c
  · rw [coordinate?_error h]; simp
  · simp

theorem documented_ofValue {v : Value} : Documented (ofValue v) ↔ Readable v := by
  unfold ofValue Readable
  rw [documented_bind, documented_coordinate?]
  refine and_congr_right fun _ => ?_
  constructor
  · rintro h ⟨lat, hlat⟩
    exact documented_coordinate?.1 (documented_bind.1 (h _ hlat)).1
  · rintro h (_ | lat) hlat
    · exact documented_ok none
    · refine documented_bind.2 ⟨documented_coordinate?.2 (h ⟨lat, hlat⟩), ?_⟩
      rintro (_ | lng) -
      · exact documented_ok none
      · simp only; split <;> exact documented_ok _

end Point

namespace Operand.Site

variable {s : Site}

@[simp] theorem documented_reject (e : ExpressionError) : Documented (s.reject e : Outcome α) :=
  documented_expression e s.operand s.path

theorem documented_point {what : String} {v : Value} : Documented (s.point what v) ↔ Point.Readable v := by
  unfold point
  rw [documented_bind, Point.documented_ofValue, and_iff_left]
  rintro (_ | p) -
  · exact documented_reject _
  · exact documented_ok p

theorem point_ok {what : String} {v : Value} : (∃ p, s.point what v = .ok p) ↔ Point.IsPoint v := by
  unfold point Point.IsPoint
  rcases Point.ofValue v with f | _ | p <;> simp [reject]

theorem documented_distance {what : String} {v : Value} : Documented (s.distance what v) ↔ v.HasFloat := by
  unfold distance
  split
  · next hbad =>
    refine iff_of_true (documented_reject _) ?_
    cases v with
    | int n => exact fun h0 => absurd h0 (by simpa [isBadAmount] using hbad)
    | _ => trivial
  next hgood =>
  cases v with
  | int n =>
    have h0 : 0 ≤ n := by simpa [isBadAmount] using hgood
    rcases hf : floatOfInt? n with _ | f <;> simp [Value.HasFloat, hf, h0]
  | float f => exact iff_of_true (documented_ok _) trivial
  | _ => exact iff_of_true (documented_reject _) trivial

theorem distance_ok {what : String} {v : Value} :
    (∃ d, s.distance what v = .ok d) ↔ isBadAmount v = false ∧ v.HasFloat := by
  unfold distance
  split
  · next hbad => simp [reject, hbad]
  next hgood =>
  cases v with
  | int n =>
    have h0 : 0 ≤ n := by simpa [isBadAmount] using hgood
    rcases hf : floatOfInt? n with _ | f <;> simp [Value.HasFloat, hf, h0, isBadAmount]
  | float f => exact iff_of_true ⟨f, rfl⟩ ⟨by simpa using hgood, trivial⟩
  | _ => exact absurd rfl hgood

/-- Can the parts that a mapping has for a vicinity be read? A part counts only when the ones before it are
what they should be. -/
def VicinityReadable (entries : List (Value × Value)) : Prop :=
  ∀ center most, Value.get? entries "center" = some center →
    Value.get? entries "maxDistanceMeters" = some most →
    Point.Readable center ∧ (Point.IsPoint center → most.HasFloat ∧
      (isBadAmount most = false → ((Value.get? entries "minDistanceMeters").getD .null).HasFloat))

theorem documented_require {name part : String} {es : List (Value × Value)} :
    Documented (s.require name es part) := by
  unfold require
  split
  · exact documented_ok _
  · exact documented_reject _

theorem require_ok {name part : String} {es : List (Value × Value)} {v : Value} :
    s.require name es part = .ok v ↔ Value.get? es part = some v := by
  unfold require
  split <;> simp_all [reject]

/-- A distance that is at least asked for is documented when it is a number or missing. -/
theorem documented_least (s : Site) (v : Value) (p : Point) (d : Float) : Documented
    (match v with
      | .null => pure (Operand.vicinity ⟨p, d, none⟩)
      | least => do return Operand.vicinity ⟨p, d, some (← s.distance "minDistanceMeters" least)⟩) ↔
    v.HasFloat := by
  cases v with
  | null => exact iff_of_true (documented_ok _) trivial
  | _ =>
    refine documented_bind.trans ((and_iff_left fun _ _ => ?_).trans documented_distance)
    exact documented_ok _

theorem documented_vicinity {es : List (Value × Value)} {path : String} :
    Documented (vicinity ⟨.object es, path⟩) ↔ VicinityReadable es := by
  unfold vicinity VicinityReadable
  simp only [entries, documented_bind, documented_ok, documented_require, require_ok, true_and,
    Except.ok.injEq,
    documented_point, documented_distance]
  constructor
  · intro h center most hcenter hmost
    obtain ⟨hread, hrest⟩ := h es rfl center hcenter most hmost
    refine ⟨hread, fun hpoint => ?_⟩
    obtain ⟨p, hp⟩ := point_ok.2 hpoint
    obtain ⟨hfloat, hrest⟩ := hrest p hp
    refine ⟨hfloat, fun hgood => ?_⟩
    obtain ⟨d, hd⟩ := distance_ok.2 ⟨hgood, hfloat⟩
    exact (documented_least _ _ p d).1 (hrest d hd)
  · rintro h _ rfl center hcenter most hmost
    obtain ⟨hread, hrest⟩ := h center most hcenter hmost
    refine ⟨hread, fun p hp => ?_⟩
    obtain ⟨hfloat, hrest⟩ := hrest (point_ok.1 ⟨p, hp⟩)
    exact ⟨hfloat, fun d hd => (documented_least _ _ p d).2 (hrest (distance_ok.1 ⟨d, hd⟩).1)⟩

/-- Can the corners that a mapping has for a box be read? -/
def BoxReadable (entries : List (Value × Value)) : Prop :=
  ∀ southwest northeast, Value.get? entries "southwest" = some southwest →
    Value.get? entries "northeast" = some northeast →
    Point.Readable southwest ∧ (Point.IsPoint southwest → Point.Readable northeast)

theorem documented_box {es : List (Value × Value)} {path : String} :
    Documented (box ⟨.object es, path⟩) ↔ BoxReadable es := by
  unfold box BoxReadable
  simp only [entries, documented_bind, documented_ok, documented_require, require_ok, true_and,
    Except.ok.injEq,
    documented_point, Outcome.pure_eq, implies_true, and_true]
  constructor
  · intro h southwest northeast hsw hne
    obtain ⟨hread, hrest⟩ := h es rfl southwest hsw northeast hne
    exact ⟨hread, fun hpoint => (point_ok.2 hpoint).elim hrest⟩
  · rintro h _ rfl southwest hsw northeast hne
    obtain ⟨hread, hrest⟩ := h southwest northeast hsw hne
    exact ⟨hread, fun p hp => hrest (point_ok.1 ⟨p, hp⟩)⟩

/-- Can the vertices that a mapping has for a polygon be read, up to the first that is no point? -/
def PolygonReadable (entries : List (Value × Value)) : Prop :=
  ∀ points, (Value.get? entries "points").bind Value.items? = some points → 3 ≤ points.length →
    ∀ pre v post, points = pre ++ v :: post → (∀ u ∈ pre, Point.IsPoint u) → Point.Readable v

theorem documented_polygon {es : List (Value × Value)} {path : String} :
    Documented (polygon ⟨.object es, path⟩) ↔ PolygonReadable es := by
  unfold polygon PolygonReadable
  simp only [entries, Outcome.ok_bind]
  rcases (Value.get? es "points").bind Value.items? with _ | points
  · simp
  simp only [Option.some.injEq, forall_eq']
  split
  · next hfew =>
    refine iff_of_true (documented_bind.2 ⟨documented_reject _, fun _ h => nomatch h⟩) fun hthree => ?_
    omega
  next henough =>
  simp only [documented_bind, documented_mapM, documented_point, point_ok, Outcome.pure_eq,
    documented_ok, implies_true, and_true]
  exact ⟨fun h _ => h, fun h => h (by omega)⟩

/-! ## Relative times -/

theorem parts_error {f : Float} {e : Failure} (h : Span.parts f = .error e) : ∃ x, e = .fault x := by
  unfold Span.parts at h
  split at h
  · exact ⟨_, (Except.error.inj h).symm⟩
  · exact ⟨_, (Except.error.inj h).symm⟩
  · cases h

theorem add_error {sum : Span.Sum} {unit : Int} {amount : Value} {e : Failure}
    (h : Span.add sum unit amount = .error e) : ∃ x, e = .fault x := by
  unfold Span.add at h
  split at h
  · cases h
  · rcases Outcome.bind_eq_error.1 h with h | ⟨_, -, h⟩
    · exact parts_error h
    simp only at h
    split at h
    · cases h
    rcases Outcome.bind_eq_error.1 h with h | ⟨_, -, h⟩
    · exact parts_error h
    · cases h
  · exact ⟨_, (Except.error.inj h).symm⟩

/-- Where amounts have no duration, no rejection says so. -/
theorem add_amounts_error {amounts : List (Int × Value)} (sum : Span.Sum) {e : Failure}
    (h : amounts.foldlM (fun sum (unit, amount) => Span.add sum unit amount) sum = .error e) :
    ∃ x, e = .fault x := by
  induction amounts generalizing sum with
  | nil => cases h
  | cons a as ih =>
    rcases Outcome.bind_eq_error.1 h with h | ⟨sum', -, h⟩
    · exact add_error h
    · exact ih sum' h

theorem documented_ofAmounts {amounts : List (Int × Value)} :
    Documented (Span.ofAmounts amounts) ↔ ∃ us, Span.ofAmounts amounts = .ok us := by
  rcases hr : Span.ofAmounts amounts with e | us
  · obtain ⟨x, rfl⟩ : ∃ x, e = .fault x := by
      rcases Outcome.bind_eq_error.1 hr with h | ⟨sum, -, h⟩
      · exact add_amounts_error _ h
      simp only at h
      split at h
      · exact ⟨_, (Except.error.inj h).symm⟩
      · cases h
    simp
  · simp

/-- Can every two values be told equal or ordered? -/
def Orderable (vs : List Value) : Prop :=
  ∀ a ∈ vs, ∀ b ∈ vs, a.equal b = true ∨ (a.relate? .lt b).isSome = true

theorem documented_ascending {vs : List Value} : Documented (ascending vs) ↔ Orderable vs := by
  unfold ascending Orderable
  simp only
  split
  · next h => exact iff_of_true (documented_ok _) (by simpa using h)
  · next h => exact iff_of_false (not_documented_fault _) (by simpa using h)

/-- Keys that name no unit of time. -/
def unknownUnits (entries : List (Value × Value)) : List Value :=
  (entries.map (·.1)).filter fun k => !timeUnits.any fun u => k.equal (.text u.1)

/-- The amount that a mapping has for a unit, with the unit. -/
def amountOf? (entries : List (Value × Value)) (u : String × Int) : Option (Int × Value) :=
  match (Value.get? entries u.1).getD .null with
  | .null => none
  | v => some (u.2, v)

def amountsOf (entries : List (Value × Value)) (units : List (String × Int)) : List (Int × Value) :=
  units.filterMap (amountOf? entries)

/-- Can the keys of a relative time be listed, if some are unknown, and has it a duration, if it has amounts
as they should be? -/
def RelativeReadable (entries : List (Value × Value)) : Prop :=
  Orderable (unknownUnits entries) ∧
    (unknownUnits entries = [] → (∀ a ∈ amountsOf entries timeUnits, isBadAmount a.2 = false) →
      (∃ a ∈ amountsOf entries timeUnits, isPositive a.2 = true) →
      ∃ us, Span.ofAmounts (amountsOf entries timeUnits).reverse = .ok us)

/-- Reads the amount that an operand has for a unit. -/
def readAmount (s : Site) (entries : List (Value × Value)) (u : String × Int) :
    Outcome (Option (Int × Value)) :=
  match (Value.get? entries u.1).getD .null with
  | .null => pure none
  | v => if isBadAmount v then s.reject (.relativeAmount u.1 v) else pure (some (u.2, v))

theorem readAmount_eq {es : List (Value × Value)} (u : String × Int) :
    readAmount s es u =
      match amountOf? es u with
      | none => .ok none
      | some a => if isBadAmount a.2 then s.reject (.relativeAmount u.1 a.2) else .ok (some a) := by
  unfold readAmount amountOf?
  rcases (Value.get? es u.1).getD .null <;> rfl

/-- Amounts are read one by one; the first one that is no amount rejects the operand. -/
theorem readAmounts_eq (s : Site) (es : List (Value × Value)) (us : List (String × Int)) :
    (∃ e, us.filterMapM (readAmount s es) = s.reject e ∧ ∃ a ∈ amountsOf es us, isBadAmount a.2 = true) ∨
      us.filterMapM (readAmount s es) = .ok (amountsOf es us) ∧
        ∀ a ∈ amountsOf es us, isBadAmount a.2 = false := by
  induction us with
  | nil => exact .inr ⟨rfl, fun a ha => nomatch ha⟩
  | cons u us ih =>
    rw [amountsOf, List.filterMapM_cons, List.filterMap_cons, readAmount_eq]
    rcases amountOf? es u with _ | a
    · simp only [Outcome.ok_bind]
      rcases ih with ⟨e, he, hbad⟩ | ⟨hok, hgood⟩
      · exact .inl ⟨e, by rw [he], hbad⟩
      · exact .inr ⟨by rw [hok]; rfl, hgood⟩
    · simp only [List.mem_cons, exists_eq_or_imp, forall_eq_or_imp]
      split
      · next hbad => exact .inl ⟨_, rfl, .inl hbad⟩
      next hgood' =>
      simp only [Outcome.ok_bind]
      rcases ih with ⟨e, he, hbad⟩ | ⟨hok, hgood⟩
      · exact .inl ⟨e, by rw [he]; rfl, .inr hbad⟩
      · exact .inr ⟨by rw [hok]; rfl, by simpa using hgood', hgood⟩

theorem relativeTime_eq {es : List (Value × Value)} {path : String} (s : Site) (hs : s = ⟨.object es, path⟩) :
    relativeTime s = (do
      if !(unknownUnits es).isEmpty then s.reject (.relativeUnknown (← ascending (unknownUnits es)))
      let amounts ← timeUnits.filterMapM (readAmount s es)
      if amounts.all fun a => !isPositive a.2 then s.reject .relativeEmpty
      return .span (← Span.ofAmounts amounts.reverse)) := by
  subst hs
  rfl

theorem documented_relativeTime {es : List (Value × Value)} {path : String} :
    Documented (relativeTime ⟨.object es, path⟩) ↔ RelativeReadable es := by
  rw [relativeTime_eq _ rfl, RelativeReadable]
  rcases hunknown : unknownUnits es with _ | ⟨k, ks⟩
  · simp only [List.isEmpty_nil, Bool.not_true, Bool.false_eq_true, if_false, forall_const]
    rw [and_iff_right (show Orderable [] from fun _ ha => nomatch ha)]
    rcases readAmounts_eq ⟨.object es, path⟩ es timeUnits with ⟨e, he, a, ha, hbad⟩ | ⟨hok, hgood⟩
    · rw [he]
      refine iff_of_true (documented_reject e) fun hall => ?_
      rw [hall a ha] at hbad
      cases hbad
    rw [hok, Outcome.ok_bind, forall_prop_of_true hgood]
    split
    · next hnone =>
      refine iff_of_true (documented_reject _) fun ⟨a, ha, hpos⟩ => ?_
      have hneg := List.all_eq_true.1 hnone a ha
      rw [hpos] at hneg
      cases hneg
    next hsome =>
    have hpos : ∃ a ∈ amountsOf es timeUnits, isPositive a.2 = true := by simpa using hsome
    rw [forall_prop_of_true hpos, ← documented_ofAmounts]
    exact documented_bind.trans (and_iff_left fun _ _ => documented_ok _)
  · simp only [List.isEmpty_cons, Bool.not_false, if_true, reduceCtorEq, false_implies, and_true]
    refine documented_bind.trans ((and_iff_left fun _ _ => ?_).trans documented_ascending)
    exact documented_reject _

/-! ## Other operands -/

theorem documented_pattern {source path : String} :
    Documented (pattern ⟨.text source, path⟩) ↔
      (hazard? source maxPatternLength = none → Pattern.Compilable source) := by
  unfold pattern Pattern.Compilable
  simp only
  rcases hazard? source maxPatternLength with _ | hazard
  · rcases Pattern.make? source 0 with (_ | _ | _) | p <;> simp
  · simp

theorem documented_orderable : Documented s.orderable := by
  unfold orderable; split <;> simp

theorem documented_flag : Documented s.flag := by
  unfold flag; split <;> simp

theorem documented_array : Documented s.array := by
  unfold array; split <;> simp

theorem documented_size : Documented s.size := by
  unfold size
  split
  · split <;> simp
  · simp

theorem documented_text : Documented s.text := by
  unfold text; split <;> simp

theorem documented_date : Documented s.date := by
  unfold date; split <;> simp

theorem documented_dayOfWeek : Documented s.dayOfWeek := by
  unfold dayOfWeek; simp only; split <;> simp

theorem documented_hourOf {v : Value} : Documented (s.hourOf v) := by
  unfold hourOf
  split
  · split <;> simp
  · simp

theorem documented_timeOfDay : Documented s.timeOfDay := by
  unfold timeOfDay
  split
  · split
    · refine documented_bind.2
        ⟨documented_hourOf, fun _ _ => documented_bind.2 ⟨documented_hourOf, fun _ _ => ?_⟩⟩
      exact documented_ok _
    · simp
  · simp

theorem documented_ageBound {es : List (Value × Value)} {key : String} : Documented (s.ageBound es key) := by
  unfold ageBound
  split
  · simp
  · split <;> simp

theorem documented_ageRange : Documented s.ageRange := by
  unfold ageRange
  split
  · simp only
    split
    · simp
    · refine documented_bind.2
        ⟨documented_ageBound, fun _ _ => documented_bind.2 ⟨documented_ageBound, fun _ _ => ?_⟩⟩
      split
      · split
        · exact documented_bind.2 ⟨documented_reject _, fun _ _ => documented_ok _⟩
        · exact documented_ok _
      · exact documented_ok _
  · simp

end Operand.Site

/-! ## All operators -/

open Operand.Site in
/-- Has the operand, if it is of the right shape, a form for the operator? -/
def Builtin.Represents : Builtin → Value → Prop
  | .regex, .text source | .search, .text source =>
    hazard? source maxPatternLength = none → Pattern.Compilable source
  | .near, .object entries => VicinityReadable entries
  | .geoBox, .object entries => BoxReadable entries
  | .geoPolygon, .object entries => PolygonReadable entries
  | .recent, .object entries | .upcoming, .object entries => RelativeReadable entries
  | _, _ => True

/-- The check of an operand fails as documented exactly when the operand has a form. -/
theorem Builtin.documented_check (b : Builtin) (operand : Value) (path : String) :
    Documented (b.check operand path) ↔ b.Represents operand := by
  cases b with
  | eq | ne | contains => exact iff_of_true (documented_ok _) trivial
  | gt | gte | lt | lte => exact iff_of_true Operand.Site.documented_orderable trivial
  | isPresent | isWeekday | isWeekend => exact iff_of_true Operand.Site.documented_flag trivial
  | isIn | notIn | all => exact iff_of_true Operand.Site.documented_array trivial
  | size => exact iff_of_true Operand.Site.documented_size trivial
  | startsWith | endsWith => exact iff_of_true Operand.Site.documented_text trivial
  | regex | search =>
    cases operand with
    | text source => exact Operand.Site.documented_pattern
    | pattern p => exact iff_of_true (documented_ok _) trivial
    | _ => exact iff_of_true (Operand.Site.documented_reject _) trivial
  | near =>
    cases operand with
    | object entries => exact Operand.Site.documented_vicinity
    | _ => exact iff_of_true (Operand.Site.documented_reject _) trivial
  | geoBox =>
    cases operand with
    | object entries => exact Operand.Site.documented_box
    | _ => exact iff_of_true (Operand.Site.documented_reject _) trivial
  | geoPolygon =>
    cases operand with
    | object entries => exact Operand.Site.documented_polygon
    | _ => exact iff_of_true (Operand.Site.documented_reject _) trivial
  | recent | upcoming =>
    cases operand with
    | object entries => exact Operand.Site.documented_relativeTime
    | _ => exact iff_of_true (Operand.Site.documented_reject _) trivial
  | dayOfWeek => exact iff_of_true Operand.Site.documented_dayOfWeek trivial
  | timeOfDay => exact iff_of_true Operand.Site.documented_timeOfDay trivial
  | age => exact iff_of_true Operand.Site.documented_ageRange trivial
  | isBefore | isAfter => exact iff_of_true Operand.Site.documented_date trivial

end Winnow
