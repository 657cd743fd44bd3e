import Mathlib.Data.List.Forall2
import Mathlib.Algebra.Order.Ring.Int
import Mathlib.Tactic.Ring
import Winnow.Pattern.Parse
/-! # Flags as bits

Setting or clearing one flag leaves the others as they are. -/

namespace Winnow.Pattern

variable {a b : Int} {j k : Nat}

/-- Adding a flag that is not set changes no other flag. -/
theorem hasFlag_add (h : hasFlag a (2 ^ j) = false) :
    hasFlag (a + (2 ^ j : Nat)) (2 ^ k) = (decide (j = k) || hasFlag a (2 ^ k)) := by
  have hj : a / 2 ^ j % 2 = 0 := by
    have hne : a / 2 ^ j % 2 ≠ 1 := by simpa [hasFlag] using h
    omega
  have hpos (n : Nat) : (0 : Int) < 2 ^ n := Int.pow_pos (by decide)
  simp only [hasFlag, Nat.cast_pow, Nat.cast_ofNat]
  rcases Nat.lt_trichotomy k j with hlt | rfl | hlt
  · obtain ⟨m, rfl⟩ := Nat.exists_eq_add_of_lt hlt
    have hsplit : (2 : Int) ^ (k + m + 1) = 2 ^ k * (2 * 2 ^ m) := by ring
    rw [hsplit, Int.add_mul_ediv_left _ _ (hpos k).ne', Int.add_mul_emod_self_left,
      decide_eq_false (by omega), Bool.false_or]
  · rw [Int.add_ediv_of_dvd_right (dvd_refl _), Int.ediv_self (hpos k).ne']
    simp only [decide_true, Bool.true_or, beq_iff_eq]
    omega
  · obtain ⟨m, rfl⟩ := Nat.exists_eq_add_of_lt hlt
    have hsplit : (2 : Int) ^ (j + m + 1) = 2 ^ j * (2 * 2 ^ m) := by ring
    have hquot : (a + 2 ^ j) / 2 ^ j = a / 2 ^ j + 1 := by
      rw [Int.add_ediv_of_dvd_right (dvd_refl _), Int.ediv_self (hpos j).ne']
    have hhalf : (a / 2 ^ j + 1) / 2 = a / 2 ^ j / 2 := by omega
    rw [hsplit, ← Int.ediv_ediv_of_nonneg (hpos j).le, ← Int.ediv_ediv_of_nonneg (hpos j).le, hquot,
      ← Int.ediv_ediv_of_nonneg (by decide), ← Int.ediv_ediv_of_nonneg (by decide), hhalf,
      decide_eq_false (by omega), Bool.false_or]

/-- Do the flags differ at most in whether case is ignored? -/
def SameButCase (a b : Int) : Prop := ∀ k, k ≠ 1 → hasFlag a (2 ^ k) = hasFlag b (2 ^ k)

theorem hasFlag_setFlag : hasFlag (setFlag a (2 ^ j)) (2 ^ k) = (decide (j = k) || hasFlag a (2 ^ k)) := by
  unfold setFlag
  split
  · next h =>
    by_cases hjk : j = k
    · subst hjk; simpa using h
    · simp [hjk]
  · next h => exact hasFlag_add (by simpa using h)

theorem hasFlag_clearFlag :
    hasFlag (clearFlag a (2 ^ j)) (2 ^ k) = (!decide (j = k) && hasFlag a (2 ^ k)) := by
  unfold clearFlag
  split
  · next h =>
    have hcleared : hasFlag (a - (2 ^ j : Nat)) (2 ^ j) = false := by
      have hodd : a / 2 ^ j % 2 = 1 := by simpa [hasFlag] using h
      have hquot : (a - 2 ^ j) / 2 ^ j = a / 2 ^ j - 1 := by
        rw [Int.sub_ediv_of_dvd _ (dvd_refl _), Int.ediv_self (Int.pow_pos (by decide)).ne']
      simp only [hasFlag, Nat.cast_pow, Nat.cast_ofNat, hquot, beq_eq_false_iff_ne]
      omega
    have hback := hasFlag_add (k := k) hcleared
    rw [Int.sub_add_cancel] at hback
    by_cases hjk : j = k
    · subst hjk; simpa using hcleared
    · simp [hback, hjk]
  · next h =>
    by_cases hjk : j = k
    · subst hjk; simpa using h
    · simp [hjk]

theorem SameButCase.setFlag (h : SameButCase a b) : SameButCase (setFlag a (2 ^ j)) (setFlag b (2 ^ j)) :=
  fun k hk => by rw [hasFlag_setFlag, hasFlag_setFlag, h k hk]

theorem SameButCase.clearFlag (h : SameButCase a b) :
    SameButCase (clearFlag a (2 ^ j)) (clearFlag b (2 ^ j)) :=
  fun k hk => by rw [hasFlag_clearFlag, hasFlag_clearFlag, h k hk]

/-- Is the number a single flag? -/
def IsBit (n : Nat) : Prop := ∃ k, n = 2 ^ k

theorem SameButCase.setFlags (h : SameButCase a b) {bits : List Nat} (hbits : ∀ n ∈ bits, IsBit n) :
    SameButCase (bits.foldl Pattern.setFlag a) (bits.foldl Pattern.setFlag b) := by
  induction bits generalizing a b with
  | nil => exact h
  | cons n bits ih =>
    obtain ⟨k, rfl⟩ := hbits n (List.mem_cons_self ..)
    exact ih h.setFlag fun m hm => hbits m (List.mem_cons_of_mem _ hm)

theorem SameButCase.clearFlags (h : SameButCase a b) {bits : List Nat} (hbits : ∀ n ∈ bits, IsBit n) :
    SameButCase (bits.foldl Pattern.clearFlag a) (bits.foldl Pattern.clearFlag b) := by
  induction bits generalizing a b with
  | nil => exact h
  | cons n bits ih =>
    obtain ⟨k, rfl⟩ := hbits n (List.mem_cons_self ..)
    exact ih h.clearFlag fun m hm => hbits m (List.mem_cons_of_mem _ hm)

theorem SameButCase.combineFlags (h : SameButCase a b) {added removed : List Nat}
    (hadded : ∀ n ∈ added, IsBit n) (hremoved : ∀ n ∈ removed, IsBit n) :
    SameButCase (Pattern.combineFlags a added removed) (Pattern.combineFlags b added removed) := by
  unfold Pattern.combineFlags
  refine SameButCase.clearFlags (SameButCase.setFlags ?_ hadded) hremoved
  split
  · exact SameButCase.clearFlag (j := 8) (SameButCase.clearFlag (j := 5) h)
  · exact h

theorem isBit_of_flagBit? {c : Char} {n : Nat} (h : flagBit? c = some n) : IsBit n := by
  unfold flagBit? at h
  split at h <;> cases h
  exacts [⟨1, rfl⟩, ⟨2, rfl⟩, ⟨3, rfl⟩, ⟨4, rfl⟩, ⟨6, rfl⟩, ⟨8, rfl⟩, ⟨0, rfl⟩, ⟨5, rfl⟩]

end Winnow.Pattern
