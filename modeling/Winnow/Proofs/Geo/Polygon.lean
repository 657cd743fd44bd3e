import Mathlib.Algebra.Order.Field.Rat
import Mathlib.Data.List.Rotate
import Mathlib.Tactic.FieldSimp
import Mathlib.Tactic.Ring
import Winnow.Geo.Region
/-! # Polygons as closed curves

A boundary is a walk along the vertices that ends where it starts. What is counted on its way depends neither on
the vertex at which it starts nor, if the two ends of an edge count alike, on the way round, and resting at a vertex
adds nothing. So a polygon is the same in whatever way its vertices are listed. -/

namespace Winnow

/-! ## Walks -/

section Walks

variable {β : Type} {test : β → β → Bool} {u v w : β} {vs ws : List β}

/-- The number of steps of a walk that pass a test of the place they lead to and the place they come from. -/
def stepsPassing (test : β → β → Bool) (start : β) : List β → Nat
  | [] => 0
  | v :: vs => (if test v start then 1 else 0) + stepsPassing test v vs

theorem stepsPassing_append :
    stepsPassing test u (vs ++ v :: ws) = stepsPassing test u (vs ++ [v]) + stepsPassing test v ws := by
  induction vs generalizing u with
  | nil => simp [stepsPassing]
  | cons a vs ih => simp only [List.cons_append, stepsPassing, ih, Nat.add_assoc]

theorem stepsPassing_concat :
    stepsPassing test u (vs ++ [w]) =
      stepsPassing test u vs + if test w ((u :: vs).getLast (List.cons_ne_nil u vs)) then 1 else 0 := by
  induction vs generalizing u with
  | nil => exact Nat.add_comm ..
  | cons a vs ih =>
    rw [List.cons_append, stepsPassing, ih, stepsPassing, List.getLast_cons (List.cons_ne_nil a vs), Nat.add_assoc]

/-- A walk there has as many steps that pass as the walk back. -/
theorem stepsPassing_reverse (hsymm : ∀ a b, test a b = test b a) :
    stepsPassing test u (vs ++ [v]) = stepsPassing test v (vs.reverse ++ [u]) := by
  induction vs generalizing u with
  | nil => simp [stepsPassing, hsymm v u]
  | cons a vs ih =>
    -- the first step there is the last step back
    have hback : stepsPassing test v (vs.reverse ++ a :: [u]) =
        stepsPassing test v (vs.reverse ++ [a]) + stepsPassing test a [u] := stepsPassing_append
    rw [List.cons_append, stepsPassing, ih, List.reverse_cons, List.append_assoc, List.singleton_append, hback,
      Nat.add_comm, hsymm a u]
    rfl

theorem countP_zip_cons :
    (vs.zip (u :: vs)).countP (fun e => test e.1 e.2) = stepsPassing test u vs := by
  induction vs generalizing u with
  | nil => rfl
  | cons v vs ih =>
    rw [List.zip_cons_cons, List.countP_cons, ih, stepsPassing, Nat.add_comm]

end Walks

namespace Position

variable {p a b v : Position ℚ} {vs ws : List (Position ℚ)}

/-! ## One edge -/

/-- The line through two places is at the same latitude from whichever of them it is drawn. -/
theorem crosses_comm (a b : Position ℚ) : p.crosses a b = p.crosses b a := by
  by_cases hlng : a.lng = b.lng
  · simp [crosses, hlng]
  · have hab : a.lng - b.lng ≠ 0 := sub_ne_zero.2 hlng
    have hba : b.lng - a.lng ≠ 0 := sub_ne_zero.2 (Ne.symm hlng)
    have hline : (b.lat - a.lat) * (p.lng - a.lng) / (b.lng - a.lng) + a.lat =
        (a.lat - b.lat) * (p.lng - b.lng) / (a.lng - b.lng) + b.lat := by
      rw [← neg_sub a.lng b.lng, ← neg_sub a.lat b.lat]
      field_simp
      ring
    rw [crosses, crosses, hline, bne_comm]

@[simp] theorem crosses_self (a : Position ℚ) : p.crosses a a = false := by simp [crosses]

/-! ## The whole boundary -/

/-- How often the ray from a point crosses the boundary. -/
def crossings (p : Position ℚ) (vertices : List (Position ℚ)) : Nat :=
  (edges vertices).countP fun (a, b) => p.crosses a b

theorem crossings_cons : p.crossings (v :: vs) = stepsPassing p.crosses v (vs ++ [v]) := by
  rw [stepsPassing_concat, Nat.add_comm]
  simp only [crossings, edges, List.getLast?_eq_some_getLast (List.cons_ne_nil v vs)]
  exact countP_zip_cons

theorem crossings_rotate (n : Nat) : p.crossings (vs.rotate n) = p.crossings vs := by
  induction n generalizing vs with
  | zero => rw [List.rotate_zero]
  | succ n ih =>
    rcases vs with _ | ⟨v, _ | ⟨w, vs⟩⟩
    · rfl
    · rw [List.rotate_singleton]
    -- the walk that starts one vertex later takes the first step last
    rw [List.rotate_cons_succ, ih, List.cons_append, crossings_cons, crossings_cons, List.append_assoc,
      List.singleton_append, stepsPassing_append, Nat.add_comm]
    simp [stepsPassing]

theorem crossings_append_comm : p.crossings (vs ++ ws) = p.crossings (ws ++ vs) := by
  rw [← List.rotate_append_length_eq vs ws, crossings_rotate]

theorem crossings_reverse : p.crossings vs.reverse = p.crossings vs := by
  rcases vs with _ | ⟨v, vs⟩
  · rfl
  rw [List.reverse_cons, crossings_append_comm, List.singleton_append, crossings_cons, crossings_cons,
    stepsPassing_reverse crosses_comm, List.reverse_reverse]

/-- Resting at a vertex crosses nothing. -/
theorem crossings_repeated : p.crossings (vs ++ v :: v :: ws) = p.crossings (vs ++ v :: ws) := by
  rw [crossings_append_comm, @crossings_append_comm p vs]
  simp [crossings_cons, stepsPassing]

/-- A boundary with fewer than three vertices is walked back as it was walked there. -/
theorem crossings_even_of_length_lt (h : vs.length < 3) : p.crossings vs % 2 = 0 := by
  match vs, h with
  | [], _ => rfl
  | [v], _ => simp [crossings_cons, stepsPassing]
  | [v, w], _ =>
    simp only [crossings_cons, List.cons_append, List.nil_append, stepsPassing, crosses_comm w v]
    split <;> rfl

/-! ## The inside -/

/-- A point is inside when it is no vertex and the ray from it crosses the boundary an odd number of times. -/
theorem inPolygon_iff : p.inPolygon vs = true ↔ p ∉ vs ∧ p.crossings vs % 2 = 1 := by
  have hvertex : (vs.any fun v => v.lat == p.lat && v.lng == p.lng) = true ↔ p ∈ vs := by
    rcases p with ⟨lat, lng⟩
    simp only [List.any_eq_true, Bool.and_eq_true, beq_iff_eq]
    exact ⟨fun ⟨⟨_, _⟩, hv, rfl, rfl⟩ => hv, fun hp => ⟨_, hp, rfl, rfl⟩⟩
  unfold inPolygon
  split
  · next hfew => simp [crossings_even_of_length_lt hfew]
  split
  · next hp => simp [hvertex.1 hp]
  · next hp =>
    rw [hvertex] at hp
    simp [hp, crossings]

theorem inPolygon_congr (hmem : p ∈ vs ↔ p ∈ ws) (hcrossings : p.crossings vs = p.crossings ws) :
    p.inPolygon vs = p.inPolygon ws := by
  rw [Bool.eq_iff_iff, inPolygon_iff, inPolygon_iff, hmem, hcrossings]

/-! ## Dividing -/

/-- The quotient of two numbers, if there is one. -/
def quotient? (x y : ℚ) : Option ℚ := if y = 0 then none else some (x / y)

/-- Goes past an edge, and to the other side of the boundary if the ray crosses the edge. Where it does is only
asked when the meridian of the point runs between the two ends. -/
def pastEdge? (p : Position ℚ) (inside : Bool) (edge : Position ℚ × Position ℚ) : Option Bool :=
  let (a, b) := edge
  if decide (p.lng < a.lng) != decide (p.lng < b.lng) then do
    let rise ← quotient? ((b.lat - a.lat) * (p.lng - a.lng)) (b.lng - a.lng)
    return if p.lat < rise + a.lat then !inside else inside
  else return inside

/-- Is the point inside, by going past one edge after the other? There is no answer if a quotient has none. -/
def inPolygon? (p : Position ℚ) (vertices : List (Position ℚ)) : Option Bool :=
  if vertices.length < 3 then some false
  else if vertices.any fun v => v.lat == p.lat && v.lng == p.lng then some false
  else (edges vertices).foldlM p.pastEdge? false

theorem pastEdge?_eq (inside : Bool) : p.pastEdge? inside (a, b) = some (inside ^^ p.crosses a b) := by
  unfold pastEdge? crosses
  by_cases hbetween : (decide (p.lng < a.lng) != decide (p.lng < b.lng)) = true
  · have hwidth : b.lng - a.lng ≠ 0 := by
      refine sub_ne_zero.2 fun heq => ?_
      simp [heq] at hbetween
    simp only [hbetween, if_true, quotient?, if_neg hwidth, Bool.true_and, Option.pure_def, Option.bind_eq_bind,
      Option.bind_some]
    split
    · next h => simp [h]
    · next h => simp [h]
  · simp [hbetween]

theorem foldlM_pastEdge? (inside : Bool) (es : List (Position ℚ × Position ℚ)) :
    es.foldlM p.pastEdge? inside = some (inside ^^ (es.countP fun (a, b) => p.crosses a b) % 2 == 1) := by
  induction es generalizing inside with
  | nil => simp
  | cons e es ih =>
    obtain ⟨a, b⟩ := e
    rw [List.foldlM_cons, pastEdge?_eq, Option.bind_eq_bind, Option.bind_some, ih, List.countP_cons]
    have hsucc (n : Nat) : ((n + 1) % 2 == 1) = !(n % 2 == 1) := by
      rcases Nat.mod_two_eq_zero_or_one n with h | h <;> simp [Nat.add_mod, h]
    cases hab : p.crosses a b <;> simp [hab, hsucc]

theorem inPolygon?_eq : p.inPolygon? vs = some (p.inPolygon vs) := by
  unfold inPolygon? inPolygon
  split
  · rfl
  split
  · rfl
  rw [foldlM_pastEdge?, Bool.false_xor]

/-! ## The listing of the vertices -/

/-- No quotient by zero is asked for, and the inside of a polygon is the same whichever vertex is listed first, in
both directions, with the first vertex once more at the end and with any vertex listed twice in a row. -/
theorem inPolygon_of_same_curve (p : Position ℚ) (vertices : List (Position ℚ)) :
    p.inPolygon? vertices = some (p.inPolygon vertices) ∧
      (∀ n, p.inPolygon (vertices.rotate n) = p.inPolygon vertices) ∧
      p.inPolygon vertices.reverse = p.inPolygon vertices ∧
      p.inPolygon (vertices ++ vertices.head?.toList) = p.inPolygon vertices ∧
      ∀ before v after, vertices = before ++ v :: after →
        p.inPolygon (before ++ v :: v :: after) = p.inPolygon vertices := by
  refine ⟨inPolygon?_eq, fun n => ?_, ?_, ?_, fun before v after heq => ?_⟩
  · exact inPolygon_congr List.mem_rotate (crossings_rotate n)
  · exact inPolygon_congr List.mem_reverse crossings_reverse
  · rcases vertices with _ | ⟨v, vs⟩
    · rfl
    refine inPolygon_congr (by simp [or_comm]) ?_
    rw [List.head?_cons, Option.toList_some, crossings_append_comm]
    exact @crossings_repeated p v [] vs
  · subst heq
    exact inPolygon_congr (by simp) crossings_repeated

end Position
end Winnow
