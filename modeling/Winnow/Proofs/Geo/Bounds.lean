import Mathlib.Algebra.Order.Field.Basic
import Mathlib.Tactic.Linarith
import Winnow.Proofs.Geo.Polygon
/-! # The bounds of a polygon

A closed walk changes sides an even number of times, whatever the sides are. Seen from a point beyond the range of
the vertices' latitudes or longitudes, the ray crosses an edge exactly when the edge changes sides: below all
vertices the sides are those of the point's meridian, and otherwise no edge is crossed. So no polygon, not even one
that runs through itself, holds a point beyond its bounds. -/

namespace Winnow

/-! ## Sides -/

section Sides

variable {β : Type} {test test' : β → β → Bool} {u w : β} {vs : List β}

theorem stepsPassing_congr (h : ∀ a ∈ u :: vs, ∀ b ∈ u :: vs, test a b = test' a b) :
    stepsPassing test u vs = stepsPassing test' u vs := by
  induction vs generalizing u with
  | nil => rfl
  | cons v vs ih =>
    have htail := ih fun a ha b hb => h a (List.mem_cons_of_mem _ ha) b (List.mem_cons_of_mem _ hb)
    rw [stepsPassing, stepsPassing, htail, h v (by simp) u (by simp)]

/-- A walk changes sides an odd number of times when it ends on the other side. -/
theorem stepsPassing_sides (side : β → Bool) :
    stepsPassing (fun a b => side a != side b) u (vs ++ [w]) % 2 = if side u = side w then 0 else 1 := by
  induction vs generalizing u with
  | nil => cases hu : side u <;> cases hw : side w <;> simp [stepsPassing, hu, hw]
  | cons v vs ih =>
    -- after the first step the walk is on the side of `v`
    rw [List.cons_append, stepsPassing, Nat.add_mod, ih]
    cases hu : side u <;> cases hv : side v <;> cases hw : side w <;> rfl

end Sides

namespace Position

variable {p a b : Position ℚ} {vs : List (Position ℚ)}

/-- A boundary whose edges are crossed exactly when they change sides is crossed an even number of times. -/
theorem crossings_even_of_sides {side : Position ℚ → Bool}
    (h : ∀ a ∈ vs, ∀ b ∈ vs, p.crosses a b = (side a != side b)) : p.crossings vs % 2 = 0 := by
  rcases vs with _ | ⟨v, vs⟩
  · rfl
  have hwalk : stepsPassing p.crosses v (vs ++ [v]) = stepsPassing (fun a b => side a != side b) v (vs ++ [v]) := by
    refine stepsPassing_congr fun a ha b hb => h a ?_ b ?_
    · simpa [or_comm] using ha
    · simpa [or_comm] using hb
  rw [crossings_cons, hwalk, stepsPassing_sides, if_pos rfl]

/-! ## One edge -/

/-- An edge meets a meridian between its ends at a latitude between theirs. -/
theorem meeting_bounds (h : (decide (p.lng < a.lng) != decide (p.lng < b.lng)) = true) :
    min a.lat b.lat ≤ (b.lat - a.lat) * (p.lng - a.lng) / (b.lng - a.lng) + a.lat ∧
      (b.lat - a.lat) * (p.lng - a.lng) / (b.lng - a.lng) + a.lat ≤ max a.lat b.lat := by
  obtain ⟨s, hs, hs₀, hs₁⟩ : ∃ s, (p.lng - a.lng) / (b.lng - a.lng) = s ∧ 0 ≤ s ∧ s ≤ 1 := by
    refine ⟨_, rfl, ?_⟩
    rw [bne_iff_ne, Ne, decide_eq_decide] at h
    rcases lt_or_ge p.lng a.lng with ha | ha
    · have hb : b.lng ≤ p.lng := not_lt.1 fun hb => h (iff_of_true ha hb)
      exact ⟨div_nonneg_of_nonpos (by linarith) (by linarith), div_le_one_of_ge (by linarith) (by linarith)⟩
    · have hb : p.lng < b.lng := not_le.1 fun hb => h (iff_of_false ha.not_gt hb.not_gt)
      exact ⟨div_nonneg (by linarith) (by linarith), div_le_one_of_le₀ (by linarith) (by linarith)⟩
  rw [mul_div_assoc, hs]
  rcases le_total a.lat b.lat with hab | hab
  · have hleast := mul_nonneg (sub_nonneg.2 hab) hs₀
    have hmost := mul_le_of_le_one_right (sub_nonneg.2 hab) hs₁
    rw [min_eq_left hab, max_eq_right hab]
    exact ⟨by linarith, by linarith⟩
  · have hleast := mul_nonneg (sub_nonneg.2 hab) hs₀
    have hmost := mul_le_of_le_one_right (sub_nonneg.2 hab) hs₁
    rw [min_eq_right hab, max_eq_left hab]
    exact ⟨by linarith, by linarith⟩

/-- From below both ends an edge is crossed when it crosses the meridian. -/
theorem crosses_of_below (ha : p.lat < a.lat) (hb : p.lat < b.lat) :
    p.crosses a b = (decide (p.lng < a.lng) != decide (p.lng < b.lng)) := by
  rw [crosses, Bool.and_eq_left_iff_imp, decide_eq_true_eq]
  exact fun hbetween => (lt_min ha hb).trans_le (meeting_bounds hbetween).1

theorem crosses_of_above (ha : a.lat < p.lat) (hb : b.lat < p.lat) : p.crosses a b = false := by
  rw [crosses, Bool.and_eq_false_imp, decide_eq_false_iff_not, not_lt]
  exact fun hbetween => (meeting_bounds hbetween).2.trans (max_lt ha hb).le

theorem crosses_of_side (h : p.lng < a.lng ↔ p.lng < b.lng) : p.crosses a b = false := by
  rw [crosses, decide_eq_decide.2 h, bne_self_eq_false, Bool.false_and]

/-! ## The bounds -/

/-- Is a number beyond the range of others, less than all of them or greater? -/
def IsBeyond (x : ℚ) (ys : List ℚ) : Prop := (∀ y ∈ ys, x < y) ∨ ∀ y ∈ ys, y < x

/-- Is the point beyond the range of the vertices' latitudes or beyond that of their longitudes? -/
def IsOutOfBounds (p : Position ℚ) (vertices : List (Position ℚ)) : Prop :=
  IsBeyond p.lat (vertices.map (·.lat)) ∨ IsBeyond p.lng (vertices.map (·.lng))

theorem IsOutOfBounds.exists_side (h : p.IsOutOfBounds vs) :
    ∃ side : Position ℚ → Bool, ∀ a ∈ vs, ∀ b ∈ vs, p.crosses a b = (side a != side b) := by
  simp only [IsOutOfBounds, IsBeyond, List.forall_mem_map] at h
  rcases h with (hbelow | habove) | (hbelow | habove)
  · exact ⟨fun v => decide (p.lng < v.lng), fun a ha b hb => crosses_of_below (hbelow a ha) (hbelow b hb)⟩
  · exact ⟨fun _ => false, fun a ha b hb => crosses_of_above (habove a ha) (habove b hb)⟩
  · exact ⟨fun _ => false, fun a ha b hb => crosses_of_side (iff_of_true (hbelow a ha) (hbelow b hb))⟩
  · exact ⟨fun _ => false, fun a ha b hb =>
      crosses_of_side (iff_of_false (habove a ha).not_gt (habove b hb).not_gt)⟩

/-- A point out of bounds is not inside, and no quotient by zero is asked for to find that. -/
theorem not_inPolygon_of_isOutOfBounds {p : Position ℚ} {vertices : List (Position ℚ)} (h : p.IsOutOfBounds vertices) :
    p.inPolygon? vertices = some false ∧ p.inPolygon vertices = false := by
  obtain ⟨side, hside⟩ := h.exists_side
  have houtside : p.inPolygon vertices = false := by
    rw [← Bool.not_eq_true, inPolygon_iff, crossings_even_of_sides hside]
    exact fun hinside => absurd hinside.2 Nat.zero_ne_one
  exact ⟨inPolygon?_eq.trans (congrArg some houtside), houtside⟩

/-- A bow tie that runs through itself, from below: all four edges are crossed. -/
theorem not_inPolygon_bowTie :
    (⟨-1, 1⟩ : Position ℚ).IsOutOfBounds [⟨0, 0⟩, ⟨2, 2⟩, ⟨2, 0⟩, ⟨0, 2⟩] ∧
    crossings ⟨-1, 1⟩ [⟨0, 0⟩, ⟨2, 2⟩, ⟨2, 0⟩, ⟨0, 2⟩] = 4 ∧
    inPolygon? ⟨-1, 1⟩ [⟨0, 0⟩, ⟨2, 2⟩, ⟨2, 0⟩, ⟨0, 2⟩] = some false := by
  have hbounds : (⟨-1, 1⟩ : Position ℚ).IsOutOfBounds [⟨0, 0⟩, ⟨2, 2⟩, ⟨2, 0⟩, ⟨0, 2⟩] :=
    .inl (.inl (by decide +kernel))
  exact ⟨hbounds, by decide +kernel, (not_inPolygon_of_isOutOfBounds hbounds).1⟩

end Position
end Winnow
