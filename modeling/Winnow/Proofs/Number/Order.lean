import Mathlib
import Winnow.Proofs.Number.Exact
/-! # Order of denoted numbers

All values but the one that is no number have a place on the line of rationals between two infinities, and
are compared by it. -/

namespace Winnow.Exact

/-- The place of a value; what is no number is put below all others. -/
def place : Exact → WithBot (WithTop ℚ)
  | .nan | .infinite true => ⊥
  | .infinite false => ((⊤ : WithTop ℚ) : WithBot (WithTop ℚ))
  | .finite m e => (((m * 2 ^ e : ℚ) : WithTop ℚ) : WithBot (WithTop ℚ))

theorem place_finite_strictMono (low : Int) : StrictMono fun m : Int => (finite m low).place := by
  intro m n hmn
  have hlow : (0 : ℚ) < 2 ^ low := by positivity
  have hlt : (m * 2 ^ low : ℚ) < n * 2 ^ low := mul_lt_mul_of_pos_right (Int.cast_lt.2 hmn) hlow
  exact WithBot.coe_lt_coe.2 (WithTop.coe_lt_coe.2 hlt)

theorem place_scaled {m e low : Int} (h : low ≤ e) : (finite (scaled m e low) low).place = (finite m e).place := by
  simp only [place, scaled_eq h]

/-- Values are compared by their places. -/
theorem exists_compare {x y : Exact} (hx : x ≠ .nan) (hy : y ≠ .nan) :
    ∃ o, x.compare y = some o ∧ o.Compares x.place y.place := by
  have htop (q : ℚ) : ((q : WithTop ℚ) : WithBot (WithTop ℚ)) < (⊤ : WithTop ℚ) :=
    WithBot.coe_lt_coe.2 (WithTop.coe_lt_top q)
  cases x with
  | nan => exact absurd rfl hx
  | infinite a =>
    cases y with
    | nan => exact absurd rfl hy
    | infinite b =>
      cases a <;> cases b
      · exact ⟨.eq, rfl, rfl⟩
      · exact ⟨.gt, rfl, WithBot.bot_lt_coe _⟩
      · exact ⟨.lt, rfl, WithBot.bot_lt_coe _⟩
      · exact ⟨.eq, rfl, rfl⟩
    | finite n k =>
      cases a
      · exact ⟨.gt, rfl, htop _⟩
      · exact ⟨.lt, rfl, WithBot.bot_lt_coe _⟩
  | finite m e =>
    cases y with
    | nan => exact absurd rfl hy
    | infinite b =>
      cases b
      · exact ⟨.lt, rfl, htop _⟩
      · exact ⟨.gt, rfl, WithBot.bot_lt_coe _⟩
    | finite n k =>
      refine ⟨_, rfl, ?_⟩
      rw [← place_scaled (Int.min_le_left e k), ← place_scaled (Int.min_le_right e k),
        (place_finite_strictMono (min e k)).compares]
      exact (compare_iff _ _).1 rfl

theorem compare_swap (x y : Exact) : y.compare x = (x.compare y).map Ordering.swap := by
  by_cases hx : x = .nan
  · subst hx
    cases y <;> rfl
  by_cases hy : y = .nan
  · subst hy
    cases x <;> rfl
  obtain ⟨o, hxy, ho⟩ := exists_compare hx hy
  obtain ⟨o', hyx, ho'⟩ := exists_compare hy hx
  have hswap : o.swap.Compares y.place x.place := Ordering.Compares.swap ho
  rw [hxy, hyx, Ordering.Compares.inj ho' hswap, Option.map_some]

end Winnow.Exact
