import Winnow.Proofs.Operator.Operand
import Winnow.Proofs.Value.Resembling
/-! # Operands that read alike

What an operator reads out of a mapping or a list of numbers it reads out of every operand that resembles it. -/

namespace Winnow
open Value Outcome

variable {v w : Value}

namespace Value.Resembles

/-- Only a mapping reads like a mapping. -/
theorem exists_object {es : List (Value × Value)} (h : Resembles (.object es) w) : ∃ fs, w = .object fs := by
  cases h with
  | refl => exact ⟨es, rfl⟩
  | object => exact ⟨_, rfl⟩

theorem isBadAmount (h : Resembles v w) : Operand.Site.isBadAmount v = Operand.Site.isBadAmount w := by
  cases h <;> rfl

theorem isWeekdayNumber (h : Resembles v w) :
    Operand.Site.isWeekdayNumber v = Operand.Site.isWeekdayNumber w := by cases h <;> rfl

theorem dayNumber (h : Resembles v w) : Operand.Site.dayNumber v = Operand.Site.dayNumber w := by
  cases h <;> rfl

theorem coordinate? (h : Resembles v w) : Point.coordinate? v = Point.coordinate? w := by cases h <;> rfl

theorem pointPart (h : Resembles v w) (hv : v.WellMapped) (name : String) :
    Resembles (Point.part v name) (Point.part w name) := by
  cases h with
  | object hperm hkeys h => exact getD (.object hperm hkeys h) hv name _
  | record hnames h => exact lookup (entries_rel hnames h) name
  | _ => exact .refl _

theorem isEmpty_unknownUnits {es fs : List (Value × Value)} (h : Resembles (.object es) (.object fs)) :
    (Operand.Site.unknownUnits es).isEmpty = (Operand.Site.unknownUnits fs).isEmpty := by
  cases h with
  | refl => rfl
  | object hperm hkeys h =>
    have hmap := hperm.map (·.1)
    rw [hkeys] at hmap
    rw [Bool.eq_iff_iff, List.isEmpty_iff_length_eq_zero, List.isEmpty_iff_length_eq_zero,
      Operand.Site.unknownUnits, Operand.Site.unknownUnits, (hmap.filter _).length_eq]

end Value.Resembles

namespace Operand.Site

variable {path path' : String}

theorem dayOfWeek_follows (h : Resembles v w) : Follows Eq (dayOfWeek ⟨v, path⟩) (dayOfWeek ⟨w, path'⟩) := by
  have hitems {xs ys : List Value} (h : List.Forall₂ Resembles xs ys) (hv : v.items? = some xs)
      (hw : w.items? = some ys) : Follows Eq (dayOfWeek ⟨v, path⟩) (dayOfWeek ⟨w, path'⟩) := by
    have hempty : xs.isEmpty = ys.isEmpty := by cases h <;> rfl
    have hall : xs.all isWeekdayNumber = ys.all isWeekdayNumber :=
      all_eq_of_forall₂ h fun _ _ _ _ hxy => hxy.isWeekdayNumber
    have hmap : xs.map dayNumber = ys.map dayNumber := map_eq_of_forall₂ h fun _ _ _ _ hxy => hxy.dayNumber
    unfold dayOfWeek
    simp only [hv, hw, Option.getD_some]
    rw [hempty, hall, hmap]
    exact .ite Iff.rfl (.error _ _) (.ok rfl)
  cases h with
  | refl => exact .ite Iff.rfl (.error _ _) (.ok rfl)
  | list h | tuple h | tupleAsList h => exact hitems h rfl rfl
  | _ => exact .error _ _

/-! ## Parts of mappings -/

section

variable {es fs : List (Value × Value)} {s s' : Site}

theorem hourOf_follows (h : Resembles v w) : Follows Eq (s.hourOf v) (s'.hourOf w) := by
  cases h with
  | refl =>
    cases v with
    | int n => exact .ite Iff.rfl (.ok rfl) (.error _ _)
    | _ => exact .error _ _
  | _ => exact .error _ _

theorem distance_follows {what : String} (h : Resembles v w) :
    Follows Eq (s.distance what v) (s'.distance what w) := by
  unfold distance
  rw [h.isBadAmount]
  refine .ite Iff.rfl (.error _ _) ?_
  cases h with
  | refl =>
    cases v with
    | int n =>
      simp only
      cases floatOfInt? n with
      | none => exact .error _ _
      | some f => exact .ok rfl
    | float f => exact .ok rfl
    | _ => exact .error _ _
  | _ => exact .error _ _

theorem point_follows {what : String} (h : Resembles v w) (hv : v.WellMapped) :
    Follows Eq (s.point what v) (s'.point what w) := by
  have hpoint : Point.ofValue v = Point.ofValue w := by
    unfold Point.ofValue
    rw [(h.pointPart hv "lat").coordinate?, (h.pointPart hv "lng").coordinate?]
  unfold point
  rw [hpoint]
  refine .bind (.of_eq (fun _ => rfl) rfl) fun p q hpq => ?_
  cases hpq
  cases p with
  | none => exact .error _ _
  | some p => exact .ok rfl

theorem require_follows {name part : String} (h : Resembles (.object es) (.object fs))
    (hes : (Value.object es).WellMapped) : Follows (fun v w => Resembles v w ∧ v.WellMapped)
      (s.require name es part) (s'.require name fs part) := by
  have hfound := h.get? hes part
  unfold require
  generalize Value.get? es part = x at hfound ⊢
  generalize Value.get? fs part = y at hfound ⊢
  cases hfound with
  | some h => exact .ok h
  | none => exact .error _ _

theorem ageBound_follows {key : String} (h : Resembles (.object es) (.object fs))
    (hes : (Value.object es).WellMapped) : Follows Eq (s.ageBound es key) (s'.ageBound fs key) := by
  have hbound := h.getD hes key .null
  unfold ageBound
  generalize (Value.get? es key).getD .null = x at hbound ⊢
  generalize (Value.get? fs key).getD .null = y at hbound ⊢
  cases hbound with
  | refl =>
    cases x with
    | null => exact .ok rfl
    | _ => exact .ite Iff.rfl (.error _ _) (.ok rfl)
  | _ => exact .error _ _

theorem readAmount_follows (h : Resembles (.object es) (.object fs)) (hes : (Value.object es).WellMapped)
    (u : String × Int) : Follows Eq (readAmount s es u) (readAmount s' fs u) := by
  have hamount := h.getD hes u.1 .null
  unfold readAmount
  generalize (Value.get? es u.1).getD .null = x at hamount ⊢
  generalize (Value.get? fs u.1).getD .null = y at hamount ⊢
  cases hamount with
  | refl =>
    cases x with
    | null => exact .ok rfl
    | _ => exact .ite Iff.rfl (.error _ _) (.ok rfl)
  | _ => exact .error _ _

theorem readAmounts_follows (h : Resembles (.object es) (.object fs)) (hes : (Value.object es).WellMapped)
    (us : List (String × Int)) :
    Follows Eq (us.filterMapM (readAmount s es)) (us.filterMapM (readAmount s' fs)) := by
  induction us with
  | nil => exact .ok rfl
  | cons u us ih =>
    rw [List.filterMapM_cons, List.filterMapM_cons]
    refine .bind (readAmount_follows h hes u) fun a b hab => ?_
    cases hab
    cases a with
    | none => exact ih
    | some a =>
      refine .bind ih fun as bs habs => ?_
      cases habs
      exact .ok rfl

end

/-! ## Mappings -/

theorem vicinity_follows (h : Resembles v w) (hv : v.WellMapped) :
    Follows Eq (vicinity ⟨v, path⟩) (vicinity ⟨w, path'⟩) := by
  cases v with
  | object es =>
    obtain ⟨fs, rfl⟩ := h.exists_object
    refine .bind (require_follows h hv) fun center center' hcenter => ?_
    refine .bind (require_follows h hv) fun most most' hmost => ?_
    refine .bind (point_follows hcenter.1 hcenter.2) fun p p' hp => ?_
    refine .bind (distance_follows hmost.1) fun d d' hd => ?_
    cases hp
    cases hd
    have hleast := h.getD hv "minDistanceMeters" .null
    generalize (Value.get? _ "minDistanceMeters").getD .null = x at hleast ⊢
    generalize (Value.get? _ "minDistanceMeters").getD .null = y at hleast ⊢
    cases hleast with
    | refl =>
      cases x with
      | null => exact .ok rfl
      | _ =>
        refine .bind (distance_follows (.refl _)) fun d d' hd => ?_
        cases hd
        exact .ok rfl
    | _ => exact .error _ _
  | _ => exact .error _ _

theorem box_follows (h : Resembles v w) (hv : v.WellMapped) :
    Follows Eq (box ⟨v, path⟩) (box ⟨w, path'⟩) := by
  cases v with
  | object es =>
    obtain ⟨fs, rfl⟩ := h.exists_object
    refine .bind (require_follows h hv) fun a a' ha => ?_
    refine .bind (require_follows h hv) fun b b' hb => ?_
    refine .bind (point_follows ha.1 ha.2) fun p p' hp => ?_
    refine .bind (point_follows hb.1 hb.2) fun q q' hq => ?_
    cases hp
    cases hq
    exact .ok rfl
  | _ => exact .error _ _

theorem polygon_follows (h : Resembles v w) (hv : v.WellMapped) :
    Follows Eq (polygon ⟨v, path⟩) (polygon ⟨w, path'⟩) := by
  cases v with
  | object es =>
    obtain ⟨fs, rfl⟩ := h.exists_object
    have hpoints := h.get? hv "points"
    unfold polygon entries
    simp only [Outcome.ok_bind]
    generalize Value.get? _ "points" = x at hpoints ⊢
    generalize Value.get? _ "points" = y at hpoints ⊢
    cases hpoints with
    | none => exact .error _ _
    | @some points points' hpoints =>
      simp only [Option.bind_some]
      cases hxs : points.items? with
      | none => exact .error _ _
      | some xs =>
        obtain ⟨ys, hys, hxy, hwell⟩ := hpoints.1.items? hpoints.2 hxs
        simp only [hys, hxy.length_eq]
        refine .ite Iff.rfl (.error _ _) ?_
        refine .bind (.mapM hxy fun x hx y h => point_follows h (hwell x hx)) fun ps qs hpq => ?_
        obtain rfl := List.forall₂_eq_eq_eq ▸ hpq
        exact .ok rfl
  | _ => exact .error _ _

theorem timeOfDay_follows (h : Resembles v w) (hv : v.WellMapped) :
    Follows Eq (timeOfDay ⟨v, path⟩) (timeOfDay ⟨w, path'⟩) := by
  cases v with
  | object es =>
    obtain ⟨fs, rfl⟩ := h.exists_object
    have hstart := h.get? hv "start"
    have hend := h.get? hv "end"
    unfold timeOfDay
    simp only
    generalize Value.get? _ "start" = a at hstart ⊢
    generalize Value.get? _ "start" = b at hstart ⊢
    generalize Value.get? _ "end" = c at hend ⊢
    generalize Value.get? _ "end" = d at hend ⊢
    cases hstart with
    | none => exact .error _ _
    | some hstart =>
      cases hend with
      | none => exact .error _ _
      | some hend =>
        refine .bind (hourOf_follows hstart.1) fun m m' hm => ?_
        refine .bind (hourOf_follows hend.1) fun n n' hn => ?_
        cases hm
        cases hn
        exact .ok rfl
  | _ => exact .error _ _

theorem ageRange_follows (h : Resembles v w) (hv : v.WellMapped) :
    Follows Eq (ageRange ⟨v, path⟩) (ageRange ⟨w, path'⟩) := by
  cases v with
  | object es =>
    obtain ⟨fs, rfl⟩ := h.exists_object
    have hname := h.getD hv "unit" (.text AgeUnit.years.name)
    unfold ageRange
    simp only
    generalize (Value.get? _ "unit").getD _ = x at hname ⊢
    generalize (Value.get? _ "unit").getD _ = y at hname ⊢
    cases hname with
    | refl =>
      split
      · exact .error _ _
      · refine .bind (ageBound_follows h hv) fun least least' hleast => ?_
        refine .bind (ageBound_follows h hv) fun most most' hmost => ?_
        cases hleast
        cases hmost
        split
        · exact .ite Iff.rfl (.error _ _) (.ok rfl)
        · exact .ok rfl
    | _ => exact .error _ _
  | _ => exact .error _ _

theorem relativeTime_follows (h : Resembles v w) (hv : v.WellMapped) :
    Follows Eq (relativeTime ⟨v, path⟩) (relativeTime ⟨w, path'⟩) := by
  cases v with
  | object es =>
    obtain ⟨fs, rfl⟩ := h.exists_object
    rw [relativeTime_eq _ rfl, relativeTime_eq _ rfl]
    cases hknown : (unknownUnits es).isEmpty with
    | false =>
      cases ascending (unknownUnits es) <;> exact .error _ _
    | true =>
      rw [h.isEmpty_unknownUnits] at hknown
      rw [hknown]
      refine .bind (readAmounts_follows h hv timeUnits) fun as bs habs => ?_
      cases habs
      exact .ite Iff.rfl (.error _ _) (.of_eq (fun _ => rfl) rfl)
  | _ => exact .error _ _

theorem pattern_follows : Follows Eq (pattern ⟨v, path⟩) (pattern ⟨v, path'⟩) := by
  cases v with
  | pattern p => exact .ok rfl
  | text source =>
    unfold pattern
    dsimp only
    rcases hazard? source maxPatternLength with _ | hazard
    · rcases Pattern.make? source 0 with e | p
      · cases e <;> exact .error _ _
      · exact .ok rfl
    · exact .error _ _
  | _ => exact .error _ _

end Operand.Site

/-- What a built-in operator makes of an operand does not depend on where the operand stands. -/
theorem Builtin.check_elsewhere (b : Builtin) (hv : v.WellMapped) (path path' : String) :
    Follows Eq (b.check v path) (b.check v path') := by
  have hsame := Resembles.refl v
  cases b with
  | eq | ne | contains => exact .ok rfl
  | regex | search => exact Operand.Site.pattern_follows
  | near => exact Operand.Site.vicinity_follows hsame hv
  | geoBox => exact Operand.Site.box_follows hsame hv
  | geoPolygon => exact Operand.Site.polygon_follows hsame hv
  | recent | upcoming => exact Operand.Site.relativeTime_follows hsame hv
  | dayOfWeek => exact Operand.Site.dayOfWeek_follows hsame
  | timeOfDay => exact Operand.Site.timeOfDay_follows hsame hv
  | age => exact Operand.Site.ageRange_follows hsame hv
  | size =>
    cases v with
    | int n => exact .ite Iff.rfl (.error _ _) (.ok rfl)
    | _ => exact .error _ _
  | _ =>
    -- the other operators take an operand of some kinds as it is
    cases v <;> first | exact .ok rfl | exact .error _ _

end Winnow
