import Mathlib.Algebra.Order.Field.Power
import Mathlib.Data.Rat.Cast.Order
import Mathlib.Tactic.FieldSimp
import Winnow.Number.Exact
/-! # Denoted numbers

Two denoted values are equal exactly when they are the same rational or the same infinity. -/

namespace Winnow.Exact

/-- The rational or infinity that is denoted, if there is one; infinities are told apart by their sign. -/
def denoted? : Exact → Option (Bool ⊕ ℚ)
  | .nan => none
  | .infinite negative => some (.inl negative)
  | .finite m e => some (.inr (m * 2 ^ e))

theorem scaled_eq {m e low : Int} (h : low ≤ e) : ((scaled m e low : Int) : ℚ) * 2 ^ low = m * 2 ^ e := by
  have hpow : (2 : ℚ) ^ (e - low).toNat = 2 ^ (e - low) := by
    rw [← zpow_natCast, Int.toNat_of_nonneg (Int.sub_nonneg_of_le h)]
  have hscaled : ((scaled m e low : Int) : ℚ) = m * 2 ^ (e - low).toNat := by
    rw [scaled, show Int.pow 2 (e - low).toNat = (2 : Int) ^ (e - low).toNat from rfl]
    push_cast
    rfl
  rw [hscaled, hpow, mul_assoc, ← zpow_add₀ (by norm_num), Int.sub_add_cancel]

theorem compare_finite_eq {m e n k : Int} :
    compare (.finite m e) (.finite n k) = some .eq ↔ (m * 2 ^ e : ℚ) = n * 2 ^ k := by
  have hlow : (2 : ℚ) ^ min e k ≠ 0 := by positivity
  rw [compare, Option.some.injEq, compare_eq_iff_eq, ← scaled_eq (Int.min_le_left e k),
    ← scaled_eq (Int.min_le_right e k), mul_left_inj' hlow, Int.cast_inj]

/-- Values are equal exactly when they denote the same. -/
theorem compare_eq_iff {x y : Exact} : x.compare y = some .eq ↔ ∃ v, x.denoted? = some v ∧ y.denoted? = some v := by
  cases x with
  | nan => simp [compare, denoted?]
  | infinite a =>
    cases y with
    | nan => simp [compare, denoted?]
    | infinite b => cases a <;> cases b <;> simp [compare, denoted?]
    | finite n k => cases a <;> simp [compare, denoted?]
  | finite m e =>
    cases y with
    | nan => simp [compare, denoted?]
    | infinite b => cases b <;> simp [compare, denoted?]
    | finite n k =>
      rw [compare_finite_eq]
      simp [denoted?, eq_comm]

theorem compare_eq_symm {x y : Exact} (h : x.compare y = some .eq) : y.compare x = some .eq := by
  obtain ⟨v, hx, hy⟩ := compare_eq_iff.1 h
  exact compare_eq_iff.2 ⟨v, hy, hx⟩

/-- What equals one value is equal. -/
theorem compare_eq_of_eq {x y z : Exact} (hy : x.compare y = some .eq) (hz : x.compare z = some .eq) :
    y.compare z = some .eq := by
  obtain ⟨v, hx, hy⟩ := compare_eq_iff.1 hy
  obtain ⟨w, hx', hz⟩ := compare_eq_iff.1 hz
  rw [hx] at hx'
  exact compare_eq_iff.2 ⟨v, hy, by rw [hz, Option.some.inj hx']⟩

end Winnow.Exact
