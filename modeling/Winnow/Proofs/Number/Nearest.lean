import Mathlib.Algebra.Order.Field.Power
import Mathlib.Data.Rat.Cast.Order
import Mathlib.Tactic.FieldSimp
import Mathlib.Tactic.Linarith
import Mathlib.Tactic.NormNum
import Winnow.Proofs.Number.FloatBits
/-! # The nearest float

A float is the nearest one to every rational of an interval around it: half a place to either side, and only a
quarter below a power of two, where floats are closer. The ends belong to the interval when the mantissa is
even. `nearestBits?` finds the float from any rational of its interval. -/

namespace Winnow

/-! ## Quotients in units of a power -/

/-- `num / den` in units of `b ^ e`, as a quotient. -/
def inUnits (b num den : Nat) (e : Int) : Nat × Nat :=
  if 0 ≤ e then (num, den * Nat.pow b e.toNat) else (num * Nat.pow b (-e).toNat, den)

/-- The rational that a quotient is. -/
def ratio (x : Nat × Nat) : ℚ := x.1 / x.2

variable {b num den : Nat} {e : Int}

theorem inUnits_pos (hb : 0 < b) (hden : 0 < den) : 0 < (inUnits b num den e).2 := by
  unfold inUnits
  split
  · exact Nat.mul_pos hden (Nat.pow_pos hb)
  · exact hden

theorem ratio_inUnits (hb : 0 < b) (hden : 0 < den) : ratio (inUnits b num den e) = num / den * (b : ℚ) ^ (-e) := by
  have hb : (b : ℚ) ≠ 0 := by exact_mod_cast hb.ne'
  have hden : (den : ℚ) ≠ 0 := by exact_mod_cast hden.ne'
  unfold inUnits ratio
  split
  · next he =>
    have hpow : ((b ^ e.toNat : Nat) : ℚ) = (b : ℚ) ^ e := by
      rw [Nat.cast_pow, ← zpow_natCast, Int.toNat_of_nonneg he]
    rw [Nat.pow_eq, Nat.cast_mul, hpow, zpow_neg]
    field_simp
  · next he =>
    have hpow : ((b ^ (-e).toNat : Nat) : ℚ) = (b : ℚ) ^ (-e) := by
      rw [Nat.cast_pow, ← zpow_natCast, Int.toNat_of_nonneg (by omega)]
    rw [Nat.pow_eq, Nat.cast_mul, hpow]
    field_simp

/-- `n · b ^ e` as a quotient. -/
def timesPower (b n : Nat) (e : Int) : Nat × Nat :=
  if 0 ≤ e then (n * Nat.pow b e.toNat, 1) else (n, Nat.pow b (-e).toNat)

theorem timesPower_pos {n : Nat} (hb : 0 < b) (hn : 0 < n) (e : Int) :
    0 < (timesPower b n e).1 ∧ 0 < (timesPower b n e).2 := by
  unfold timesPower
  split
  · exact ⟨Nat.mul_pos hn (Nat.pow_pos hb), Nat.one_pos⟩
  · exact ⟨hn, Nat.pow_pos hb⟩

theorem ratio_timesPower (b n : Nat) (e : Int) : ratio (timesPower b n e) = n * (b : ℚ) ^ e := by
  unfold timesPower ratio
  split
  · next he =>
    rw [Nat.pow_eq, Nat.cast_mul, Nat.cast_pow, Nat.cast_one, div_one, ← zpow_natCast, Int.toNat_of_nonneg he]
  · next he =>
    rw [Nat.pow_eq, Nat.cast_pow, ← zpow_natCast, Int.toNat_of_nonneg (by omega), zpow_neg, div_inv_eq_mul]

/-- The whole part of a quotient is below a bound exactly when the quotient is. -/
theorem div_lt_iff_ratio_lt {x : Nat × Nat} (hx : 0 < x.2) (n : Nat) : x.1 / x.2 < n ↔ ratio x < n := by
  rw [ratio, div_lt_iff₀ (by exact_mod_cast hx), Nat.div_lt_iff_lt_mul hx]
  exact_mod_cast Iff.rfl

/-! ## Rounding -/

theorem roundDiv_eq {m : Nat} (hden : 0 < den) (hlow : 2 * m * den ≤ 2 * num + den)
    (hhigh : 2 * num ≤ 2 * m * den + den)
    (hodd : m % 2 = 1 → 2 * m * den < 2 * num + den ∧ 2 * num < 2 * m * den + den) : roundDiv num den = m := by
  have hsplit := Nat.div_add_mod num den
  have hrest := Nat.mod_lt num hden
  unfold roundDiv
  generalize num / den = k, num % den = r at hsplit hrest ⊢
  subst hsplit
  have hle : k ≤ m := by
    by_contra hlt
    have : den * (m + 1) ≤ den * k := Nat.mul_le_mul_left den (by omega)
    nlinarith
  have hge : m ≤ k + 1 := by
    by_contra hlt
    have : den * (k + 2) ≤ den * m := Nat.mul_le_mul_left den (by omega)
    nlinarith
  have hcases : k = m ∨ k + 1 = m := by omega
  rcases hcases with rfl | rfl
  · have hr : 2 * r ≤ den := by nlinarith
    have htie : k % 2 = 1 → 2 * r < den := fun h => by
      have := (hodd h).2
      nlinarith
    simp only
    split_ifs <;> omega
  · have hr : den ≤ 2 * r := by nlinarith
    have htie : (k + 1) % 2 = 1 → den < 2 * r := fun h => by
      have := (hodd h).1
      nlinarith
    simp only
    split_ifs <;> omega

/-- A quotient within half of a whole number is rounded to it; halfway the number has to be even. -/
theorem roundDiv_eq_of_near {x : Nat × Nat} {m : Nat} (hx : 0 < x.2) (hlow : (m : ℚ) - 1 / 2 ≤ ratio x)
    (hhigh : ratio x ≤ m + 1 / 2) (hodd : m % 2 = 1 → (m : ℚ) - 1 / 2 < ratio x ∧ ratio x < m + 1 / 2) :
    roundDiv x.1 x.2 = m := by
  have hpos : (0 : ℚ) < x.2 := by exact_mod_cast hx
  have hscaled : ratio x * x.2 = x.1 := div_mul_cancel₀ _ hpos.ne'
  have hle {a b : ℚ} (h : a ≤ b) : a * x.2 ≤ b * x.2 := mul_le_mul_of_nonneg_right h hpos.le
  have hlt {a b : ℚ} (h : a < b) : a * x.2 < b * x.2 := mul_lt_mul_of_pos_right h hpos
  refine roundDiv_eq hx ?_ ?_ fun h => ⟨?_, ?_⟩
  · have := hle hlow
    have : (2 * m * x.2 : ℚ) ≤ 2 * x.1 + x.2 := by linarith
    exact_mod_cast this
  · have := hle hhigh
    have : (2 * x.1 : ℚ) ≤ 2 * m * x.2 + x.2 := by linarith
    exact_mod_cast this
  · have := hlt (hodd h).1
    have : (2 * m * x.2 : ℚ) < 2 * x.1 + x.2 := by linarith
    exact_mod_cast this
  · have := hlt (hodd h).2
    have : (2 * x.1 : ℚ) < 2 * m * x.2 + x.2 := by linarith
    exact_mod_cast this

/-! ## Magnitudes -/

/-- Are mantissa and exponent those of a finite float? -/
structure Canonical (m : Nat) (q : Int) : Prop where
  lt : m < 2 ^ 53
  least : -1074 ≤ q
  largest : q ≤ 971
  normal : 2 ^ 52 ≤ m ∨ q = -1074

/-- The bits of a magnitude. -/
def magnitudeBits (m : Nat) (q : Int) : Nat :=
  if m < 2 ^ 52 then m else (q + 1075).toNat * 2 ^ 52 + (m - 2 ^ 52)

theorem canonical_of_magnitude? {f : Float} {m : Nat} {q : Int} (h : Exact.magnitude? f = some (m, q)) :
    Canonical m q := by
  unfold Exact.magnitude? at h
  simp only [Nat.pow_eq] at h
  split at h
  · cases h
  split at h
  · obtain ⟨rfl, rfl⟩ := Prod.mk.inj (Option.some.inj h)
    exact ⟨by omega, by omega, by omega, .inr rfl⟩
  · obtain ⟨rfl, rfl⟩ := Prod.mk.inj (Option.some.inj h)
    exact ⟨by omega, by omega, by omega, .inl (by omega)⟩

/-- A float is made of its sign and its magnitude. -/
theorem floatOfBits_magnitudeBits {f : Float} {m : Nat} {q : Int} (h : Exact.magnitude? f = some (m, q)) :
    floatOfBits (Exact.signBit f) (magnitudeBits m q) = f := by
  have hlt : f.toBits.toNat < 2 ^ 64 := f.toBits.toNat_lt
  have hbits : (if Exact.signBit f then magnitudeBits m q + Nat.pow 2 63 else magnitudeBits m q) =
      f.toBits.toNat := by
    unfold Exact.magnitude? at h
    simp only [Nat.pow_eq] at h
    rw [Exact.signBit, magnitudeBits, Nat.pow_eq, beq_eq_decide]
    generalize f.toBits.toNat = bits at hlt h ⊢
    split at h
    · cases h
    split at h
    all_goals
      obtain ⟨rfl, rfl⟩ := Prod.mk.inj (Option.some.inj h)
      rcases Nat.lt_or_ge bits (2 ^ 63) with hsign | hsign
      · rw [if_neg (by simp only [decide_eq_true_eq]; omega)]
        split <;> omega
      · rw [if_pos (by simp only [decide_eq_true_eq]; omega)]
        split <;> omega
  rw [floatOfBits, hbits, UInt64.ofNat_toNat, FloatBits.ofBits_toBits]

/-- A float without a magnitude is an infinity or no number. -/
theorem eq_of_magnitude?_none {f : Float} (h : Exact.magnitude? f = none) :
    if f.toBits.toNat % Nat.pow 2 52 = 0 then f = floatInfinity (Exact.signBit f) else f = floatNaN := by
  have hlt : f.toBits.toNat < 2 ^ 64 := f.toBits.toNat_lt
  have hexponent : f.toBits.toNat / 2 ^ 52 % 2 ^ 11 = 2047 := by
    unfold Exact.magnitude? at h
    simp only [Nat.pow_eq] at h
    split at h
    · next hall => exact hall
    · split at h <;> cases h
  split
  · next hmantissa =>
    have hbits : (if Exact.signBit f then 2047 * Nat.pow 2 52 + Nat.pow 2 63 else 2047 * Nat.pow 2 52) =
        f.toBits.toNat := by
      rw [Exact.signBit, Nat.pow_eq, Nat.pow_eq, beq_eq_decide]
      rw [Nat.pow_eq] at hmantissa
      generalize f.toBits.toNat = bits at hlt hexponent hmantissa ⊢
      rcases Nat.lt_or_ge bits (2 ^ 63) with hsign | hsign
      · rw [if_neg (by simp only [decide_eq_true_eq]; omega)]
        omega
      · rw [if_pos (by simp only [decide_eq_true_eq]; omega)]
        omega
    rw [floatInfinity, floatOfBits, hbits, UInt64.ofNat_toNat, FloatBits.ofBits_toBits]
  · next hmantissa => exact FloatBits.eq_floatNaN hexponent hmantissa

/-! ## The interval of a float -/

/-- The lower end of the interval of a float, in quarters of a place. -/
def lowest (m : Nat) (q : Int) : Nat := if m = 2 ^ 52 ∧ q ≠ -1074 then 4 * m - 1 else 4 * m - 2

/-- Is `m · 2^q` the float that the rational is rounded to? -/
structure RoundsTo (m : Nat) (q : Int) (x : ℚ) : Prop where
  low : lowest m q * 2 ^ (q - 2) ≤ x
  high : x ≤ (4 * m + 2) * 2 ^ (q - 2)
  odd : m % 2 = 1 → lowest m q * 2 ^ (q - 2) < x ∧ x < (4 * m + 2) * 2 ^ (q - 2)

section

variable {m : Nat} {q : Int} {x : ℚ}

theorem le_lowest (m : Nat) (q : Int) : 4 * m - 2 ≤ lowest m q := by
  unfold lowest
  split <;> omega

theorem two_zpow_pos (e : Int) : (0 : ℚ) < 2 ^ e := zpow_pos (by norm_num) e

theorem two_zpow_succ (e : Int) (n : Nat) : (2 : ℚ) ^ (e + n) = 2 ^ n * 2 ^ e := by
  rw [zpow_add₀ (by norm_num), zpow_natCast, mul_comm]

theorem RoundsTo.pos (hm : 0 < m) (h : RoundsTo m q x) : 0 < x := by
  have hlow : (0 : ℚ) < lowest m q := by
    have := le_lowest m q
    exact_mod_cast (show 0 < lowest m q by omega)
  exact (mul_pos hlow (two_zpow_pos _)).trans_le h.low

/-- What is rounded to a positive float is at least half of the smallest one. -/
theorem RoundsTo.le (hc : Canonical m q) (hm : 0 < m) (h : RoundsTo m q x) : (2 : ℚ) ^ (-1075 : Int) ≤ x := by
  have hlow : (2 : ℚ) ≤ lowest m q := by
    have := le_lowest m q
    exact_mod_cast (show 2 ≤ lowest m q by omega)
  have hleast := hc.least
  calc (2 : ℚ) ^ (-1075 : Int) ≤ 2 ^ (q - 2 + (1 : Nat)) := zpow_le_zpow_right₀ (by norm_num) (by omega)
    _ = 2 * 2 ^ (q - 2) := by rw [two_zpow_succ, pow_one]
    _ ≤ lowest m q * 2 ^ (q - 2) := mul_le_mul_of_nonneg_right hlow (two_zpow_pos _).le
    _ ≤ x := h.low

/-- What is rounded to a float is below the next power of two. -/
theorem RoundsTo.lt (hc : Canonical m q) (h : RoundsTo m q x) : x < 2 ^ (q + 53) := by
  have hm : (m : ℚ) + 1 ≤ 2 ^ 53 := by exact_mod_cast hc.lt
  have hpow := two_zpow_succ (q - 2) 55
  rw [show q - 2 + (55 : Nat) = q + 53 by ring] at hpow
  rw [hpow]
  exact h.high.trans_lt (mul_lt_mul_of_pos_right (by linarith) (two_zpow_pos _))

/-- Only below a power of two can what is rounded to a float be below the float's own powers. -/
theorem RoundsTo.ge (hc : Canonical m q) (h : RoundsTo m q x) (hx : x < 2 ^ (q + 52)) (hq : q ≠ -1074) :
    m = 2 ^ 52 ∧ (2 ^ 54 - 1) * 2 ^ (q - 2) ≤ x := by
  have hnormal : 2 ^ 52 ≤ m := hc.normal.resolve_right hq
  have hpow := two_zpow_succ (q - 2) 54
  rw [show q - 2 + (54 : Nat) = q + 52 by ring] at hpow
  have hlow : (lowest m q : ℚ) < (2 ^ 54 : Nat) := by
    have hlt := h.low.trans_lt hx
    rw [hpow] at hlt
    exact_mod_cast lt_of_mul_lt_mul_right hlt (two_zpow_pos _).le
  have hlow : lowest m q < 2 ^ 54 := by exact_mod_cast hlow
  have hm : m = 2 ^ 52 := by
    have := le_lowest m q
    omega
  refine ⟨hm, ?_⟩
  have heq : (lowest m q : ℚ) = 2 ^ 54 - 1 := by
    rw [lowest, if_pos ⟨hm, hq⟩, hm]
    norm_num
  rw [← heq]
  exact h.low

/-- The rational in places of the float is within half a place of its mantissa. -/
theorem RoundsTo.near (h : RoundsTo m q x) (hm : 0 < m) : (m : ℚ) - 1 / 2 ≤ x * 2 ^ (-q) ∧
    x * 2 ^ (-q) ≤ m + 1 / 2 ∧
    (m % 2 = 1 → (m : ℚ) - 1 / 2 < x * 2 ^ (-q) ∧ x * 2 ^ (-q) < m + 1 / 2) := by
  have hscale : (2 : ℚ) ^ (q - 2) * 2 ^ (-q) = 1 / 4 := by
    rw [← zpow_add₀ (by norm_num), show q - 2 + -q = -2 by ring]
    norm_num
  have hlowest : 4 * (m : ℚ) - 2 ≤ lowest m q := by
    have := le_lowest m q
    have : 4 * m ≤ lowest m q + 2 := by omega
    have : (4 * m : ℚ) ≤ lowest m q + 2 := by exact_mod_cast this
    linarith
  have hpos := two_zpow_pos (-q)
  have hle {a : ℚ} (ha : a * 2 ^ (q - 2) ≤ x) : a / 4 ≤ x * 2 ^ (-q) := by
    have := mul_le_mul_of_nonneg_right ha hpos.le
    rw [mul_assoc, hscale] at this
    linarith
  have hlt {a : ℚ} (ha : a * 2 ^ (q - 2) < x) : a / 4 < x * 2 ^ (-q) := by
    have := mul_lt_mul_of_pos_right ha hpos
    rw [mul_assoc, hscale] at this
    linarith
  have hge {a : ℚ} (ha : x ≤ a * 2 ^ (q - 2)) : x * 2 ^ (-q) ≤ a / 4 := by
    have := mul_le_mul_of_nonneg_right ha hpos.le
    rw [mul_assoc, hscale] at this
    linarith
  have hgt {a : ℚ} (ha : x < a * 2 ^ (q - 2)) : x * 2 ^ (-q) < a / 4 := by
    have := mul_lt_mul_of_pos_right ha hpos
    rw [mul_assoc, hscale] at this
    linarith
  refine ⟨?_, ?_, fun hodd => ⟨?_, ?_⟩⟩
  · linarith [hle h.low]
  · linarith [hge h.high]
  · linarith [hlt (h.odd hodd).1]
  · linarith [hgt (h.odd hodd).2]

end

/-! ## Finding the float -/

/-- A whole number is between the powers of two that its logarithm names. -/
theorem log2_bounds {n : Nat} (hn : 0 < n) : (2 : ℚ) ^ (n.log2 : Int) ≤ n ∧ (n : ℚ) < 2 ^ (n.log2 + 1 : Int) := by
  have hlow : 2 ^ n.log2 ≤ n := Nat.log2_self_le hn.ne'
  have hhigh : n < 2 ^ (n.log2 + 1) := Nat.lt_log2_self
  refine ⟨?_, ?_⟩
  · rw [zpow_natCast]
    exact_mod_cast hlow
  · rw [show (n.log2 + 1 : Int) = ((n.log2 + 1 : Nat) : Int) by push_cast; ring, zpow_natCast]
    exact_mod_cast hhigh

/-- The exponent for which a quotient has 53 binary digits before the point. -/
def binade (num den : Nat) : Int :=
  let rough : Int := (num.log2 : Int) - den.log2 - 53
  let x := inUnits 2 num den rough
  if x.1 / x.2 < 2 ^ 53 then rough else rough + 1

theorem binade_spec (hnum : 0 < num) (hden : 0 < den) : (2 : ℚ) ^ (binade num den + 52) ≤ num / den ∧
    (num / den : ℚ) < 2 ^ (binade num den + 53) := by
  obtain ⟨hnumLow, hnumHigh⟩ := log2_bounds hnum
  obtain ⟨hdenLow, hdenHigh⟩ := log2_bounds hden
  have hpos : (0 : ℚ) < den := by exact_mod_cast hden
  generalize hrough : (num.log2 : Int) - den.log2 - 53 = rough
  have hlow : (2 : ℚ) ^ (rough + 52) ≤ num / den := by
    rw [le_div_iff₀ hpos]
    calc (2 : ℚ) ^ (rough + 52) * den ≤ 2 ^ (rough + 52) * 2 ^ (den.log2 + 1 : Int) :=
          mul_le_mul_of_nonneg_left hdenHigh.le (two_zpow_pos _).le
      _ = 2 ^ (num.log2 : Int) := by
          rw [← zpow_add₀ (by norm_num)]
          congr 1
          omega
      _ ≤ num := hnumLow
  have hhigh : (num / den : ℚ) < 2 ^ (rough + 54) := by
    rw [div_lt_iff₀ hpos]
    calc (num : ℚ) < 2 ^ (num.log2 + 1 : Int) := hnumHigh
      _ = 2 ^ (rough + 54) * 2 ^ (den.log2 : Int) := by
          rw [← zpow_add₀ (by norm_num)]
          congr 1
          omega
      _ ≤ 2 ^ (rough + 54) * den := mul_le_mul_of_nonneg_left hdenLow (two_zpow_pos _).le
  have hhalf : (inUnits 2 num den rough).1 / (inUnits 2 num den rough).2 < 2 ^ 53 ↔
      (num / den : ℚ) < 2 ^ (rough + 53) := by
    have hpow := two_zpow_succ rough 53
    rw [div_lt_iff_ratio_lt (inUnits_pos (by decide) hden), ratio_inUnits (by decide) hden, Nat.cast_ofNat,
      zpow_neg, ← div_eq_mul_inv, div_lt_iff₀ (two_zpow_pos _), show rough + 53 = rough + (53 : Nat) from rfl, hpow,
      Nat.cast_pow, Nat.cast_ofNat]
  unfold binade
  simp only [hrough]
  split
  · next h => exact ⟨hlow, hhalf.1 h⟩
  · next h =>
    rw [show rough + 1 + 52 = rough + 53 by ring, show rough + 1 + 53 = rough + 54 by ring]
    exact ⟨not_lt.1 fun hlt => h (hhalf.2 hlt), hhigh⟩

/-- The bits of the float with a rounded mantissa, which may have reached the next power of two. -/
def roundedBits? (k : Nat) (e : Int) : Option Nat :=
  let (k, e) := if k = 2 ^ 53 then (2 ^ 52, e + 1) else (k, e)
  if k < 2 ^ 52 then some k
  else if (e + 1075).toNat < 2047 then some ((e + 1075).toNat * 2 ^ 52 + (k - 2 ^ 52)) else none

theorem inUnits_apply (f : Nat → Nat → Nat) (b num den : Nat) (e : Int) :
    f (inUnits b num den e).1 (inUnits b num den e).2 =
      if 0 ≤ e then f num (den * Nat.pow b e.toNat) else f (num * Nat.pow b (-e).toNat) den := by
  unfold inUnits
  split <;> rfl

theorem nearestBits?_eq_roundedBits? (hnum : num ≠ 0) : nearestBits? num den =
    roundedBits? (roundDiv (inUnits 2 num den (max (binade num den) (-1074))).1
      (inUnits 2 num den (max (binade num den) (-1074))).2) (max (binade num den) (-1074)) := by
  have hdiv : ∀ e, _ = _ := inUnits_apply (fun n d => n / d) 2 num den
  rw [nearestBits?, if_neg hnum, inUnits_apply roundDiv]
  simp only [binade, hdiv]
  rfl

/-- Every rational of the interval of a float is rounded to it. -/
theorem nearestBits?_eq {m : Nat} {q : Int} (hc : Canonical m q) (hm : 0 < m) (hnum : 0 < num) (hden : 0 < den)
    (h : RoundsTo m q (num / den)) : nearestBits? num den = some (magnitudeBits m q) := by
  obtain ⟨hbinadeLow, hbinadeHigh⟩ := binade_spec hnum hden
  have hexponent {a b : Int} (h : (2 : ℚ) ^ a < 2 ^ b) : a < b :=
    (zpow_lt_zpow_iff_right₀ (by norm_num)).1 h
  have hle : binade num den ≤ q := by
    have := hexponent (hbinadeLow.trans_lt (h.lt hc))
    omega
  rw [nearestBits?_eq_roundedBits? hnum.ne']
  generalize he : max (binade num den) (-1074) = e
  have hratio : ratio (inUnits 2 num den e) = num / den * 2 ^ (-e) := by
    rw [ratio_inUnits (by decide) hden, Nat.cast_ofNat]
  have hpos : 0 < (inUnits 2 num den e).2 := inUnits_pos (by decide) hden
  have hleast := hc.least
  have hlargest := hc.largest
  have hlt := hc.lt
  rcases eq_or_lt_of_le (show e ≤ q by omega) with rfl | hbelow
  · obtain ⟨hlow, hhigh, hodd⟩ := h.near hm
    rw [← hratio] at hlow hhigh hodd
    rw [roundDiv_eq_of_near hpos hlow hhigh hodd, roundedBits?, if_neg hlt.ne]
    simp only [magnitudeBits]
    split
    · rfl
    · rw [if_pos (by omega)]
  · -- the rational is just below a power of two, so its places are half as large and it is rounded up
    have hx : (num / den : ℚ) < 2 ^ (q + 52) :=
      hbinadeHigh.trans_le (zpow_le_zpow_right₀ (by norm_num) (by omega))
    obtain ⟨rfl, hge⟩ := h.ge hc hx (by omega)
    have hclose : q < binade num den + 2 := by
      have hpow := two_zpow_succ (q - 2) 53
      have hlow : (2 : ℚ) ^ (q + 51) ≤ num / den := by
        rw [show q + 51 = q - 2 + (53 : Nat) by push_cast; ring, hpow]
        exact (mul_le_mul_of_nonneg_right (by norm_num) (two_zpow_pos _).le).trans hge
      have := hexponent (hlow.trans_lt hbinadeHigh)
      omega
    obtain rfl : e = q - 1 := by omega
    have hunit := two_zpow_pos (-(q - 1))
    have hlow : ((2 ^ 53 : Nat) : ℚ) - 1 / 2 ≤ num / den * 2 ^ (-(q - 1)) := by
      have hscale : (2 : ℚ) ^ (q - 2) * 2 ^ (-(q - 1)) = 1 / 2 := by
        rw [← zpow_add₀ (by norm_num), show q - 2 + -(q - 1) = -1 by ring]
        norm_num
      have := mul_le_mul_of_nonneg_right hge hunit.le
      rw [mul_assoc, hscale] at this
      norm_num at this ⊢
      linarith
    have hhigh : (num / den : ℚ) * 2 ^ (-(q - 1)) ≤ (2 ^ 53 : Nat) + 1 / 2 := by
      have hscale : (2 : ℚ) ^ (q + 52) * 2 ^ (-(q - 1)) = 2 ^ 53 := by
        rw [← zpow_add₀ (by norm_num), show q + 52 + -(q - 1) = (53 : Nat) by push_cast; ring, zpow_natCast]
      have := mul_le_mul_of_nonneg_right hx.le hunit.le
      rw [hscale] at this
      norm_num at this ⊢
      linarith
    rw [← hratio] at hlow hhigh
    have heven : (2 ^ 53) % 2 ≠ 1 := by decide
    rw [roundDiv_eq_of_near hpos hlow hhigh fun h => absurd h heven, roundedBits?, if_pos rfl]
    simp only [magnitudeBits, if_neg (lt_irrefl _), sub_add_cancel]
    rw [if_pos (by omega)]

end Winnow
