import Winnow.Number.Read
import Winnow.Number.Shortest
import Winnow.Proofs.Number.Nearest
/-! # The shortest decimal

The shortest decimal of a float is a rational of the float's interval: every decimal that is taken has passed the
test for it, and with seventeen digits one of the two neighbours on the decimal grid passes. -/

namespace Winnow.Decimal

variable {m num den : Nat} {q : Int}

/-- The rational that a decimal is. -/
def value (d : Decimal) : ℚ := d.digits * 10 ^ d.exponent

theorem ten_zpow_pos (e : Int) : (0 : ℚ) < 10 ^ e := zpow_pos (by norm_num) e

theorem onGrid_eq (num den : Nat) (e : Int) : onGrid num den e = inUnits 10 num den e := rfl

theorem onGrid_pos (num : Nat) (hden : 0 < den) (e : Int) : 0 < (onGrid num den e).2 := inUnits_pos (by decide) hden

theorem ratio_onGrid (num : Nat) (hden : 0 < den) (e : Int) : ratio (onGrid num den e) = num / den * 10 ^ (-e) := by
  rw [onGrid_eq, ratio_inUnits (by decide) hden, Nat.cast_ofNat]

/-! ## The test -/

theorem le_ratio_iff {x : Nat × Nat} (hx : 0 < x.2) (n : Nat) : n * x.2 ≤ x.1 ↔ (n : ℚ) ≤ ratio x := by
  rw [ratio, le_div_iff₀ (by exact_mod_cast hx)]
  exact_mod_cast Iff.rfl

theorem ratio_le_iff {x : Nat × Nat} (hx : 0 < x.2) (n : Nat) : x.1 ≤ n * x.2 ↔ ratio x ≤ n := by
  rw [ratio, div_le_iff₀ (by exact_mod_cast hx)]
  exact_mod_cast Iff.rfl

/-- The test of a decimal is whether it is a rational of the interval. -/
theorem readsBack_iff (m : Nat) (q : Int) (c : Nat) (e : Int) :
    readsBack m q c e = true ↔ RoundsTo m q (value ⟨c, e⟩) := by
  let x := inUnits 2 (onGrid c 1 (-e)).1 (onGrid c 1 (-e)).2 (q - 2)
  have hpos : 0 < x.2 := inUnits_pos (by decide) (onGrid_pos c (by decide) (-e))
  have hratio : ratio x = value ⟨c, e⟩ / 2 ^ (q - 2) := by
    have hgrid := ratio_onGrid c (show 0 < 1 by decide) (-e)
    rw [ratio_inUnits (by decide) (onGrid_pos c (by decide) (-e))]
    rw [ratio] at hgrid
    rw [hgrid, neg_neg, Nat.cast_one, div_one, Nat.cast_ofNat, zpow_neg, ← div_eq_mul_inv]
    rfl
  have floatOfDecimal_unfold : readsBack m q c e =
      if m % 2 = 0 then lowest m q * x.2 ≤ x.1 && x.1 ≤ (4 * m + 2) * x.2
      else lowest m q * x.2 < x.1 && x.1 < (4 * m + 2) * x.2 := rfl
  have hunit := two_zpow_pos (q - 2)
  have hhigh : ((4 * m + 2 : Nat) : ℚ) = 4 * m + 2 := by push_cast; ring
  have hlow := le_ratio_iff hpos (lowest m q)
  have hle := ratio_le_iff hpos (4 * m + 2)
  have hlt := (ratio_le_iff hpos (lowest m q)).not
  have hgt := (le_ratio_iff hpos (4 * m + 2)).not
  rw [hratio, le_div_iff₀ hunit] at hlow
  rw [hratio, div_le_iff₀ hunit, hhigh] at hle
  rw [hratio, div_le_iff₀ hunit, not_le, not_le] at hlt
  rw [hratio, le_div_iff₀ hunit, not_le, not_le, hhigh] at hgt
  rw [floatOfDecimal_unfold]
  split
  · next heven =>
    rw [Bool.and_eq_true, decide_eq_true_iff, decide_eq_true_iff, hlow, hle]
    exact ⟨fun h => ⟨h.1, h.2, fun hodd => by omega⟩, fun h => ⟨h.low, h.high⟩⟩
  · next hodd =>
    rw [Bool.and_eq_true, decide_eq_true_iff, decide_eq_true_iff, hlt, hgt]
    exact ⟨fun h => ⟨h.1.le, h.2.le, fun _ => h⟩, fun h => h.odd (by omega)⟩

/-! ## Grids -/

/-- A number is between the powers of ten that its width names. -/
theorem width_bounds {n : Nat} (hn : 0 < n) : (10 : ℚ) ^ (width n - 1 : Int) ≤ n ∧ (n : ℚ) < 10 ^ (width n : Int) := by
  have hpos : 0 < width n := Nat.length_toDigits_pos
  have hlt : n < 10 ^ width n := (Nat.length_toDigits_le_iff (by decide) hpos).1 le_rfl
  refine ⟨?_, ?_⟩
  · rw [show (width n - 1 : Int) = ((width n - 1 : Nat) : Int) by omega, zpow_natCast]
    rcases Nat.eq_or_lt_of_le hpos with hone | hmore
    · rw [← hone]
      exact_mod_cast hn
    · have hle : 10 ^ (width n - 1) ≤ n := by
        by_contra hlt
        have := (Nat.length_toDigits_le_iff (by decide) (show 0 < width n - 1 by omega)).2 (not_le.1 hlt)
        exact absurd (show width n ≤ width n - 1 from this) (by omega)
      exact_mod_cast hle
  · rw [zpow_natCast]
    exact_mod_cast hlt

/-- The leading exponent is that of the power of ten next above. -/
theorem leading_bounds (hnum : 0 < num) (hden : 0 < den) : (10 : ℚ) ^ (leading num den - 1) ≤ num / den ∧
    (num / den : ℚ) < 10 ^ leading num den := by
  obtain ⟨hnumLow, hnumHigh⟩ := width_bounds hnum
  obtain ⟨hdenLow, hdenHigh⟩ := width_bounds hden
  have hpos : (0 : ℚ) < den := by exact_mod_cast hden
  generalize hrough : (width num : Int) - width den = rough
  have hlow : (10 : ℚ) ^ (rough - 1) ≤ num / den := by
    rw [le_div_iff₀ hpos]
    calc (10 : ℚ) ^ (rough - 1) * den ≤ 10 ^ (rough - 1) * 10 ^ (width den : Int) :=
          mul_le_mul_of_nonneg_left hdenHigh.le (ten_zpow_pos _).le
      _ = 10 ^ (width num - 1 : Int) := by
          rw [← zpow_add₀ (by norm_num)]
          congr 1
          omega
      _ ≤ num := hnumLow
  have hhigh : (num / den : ℚ) < 10 ^ (rough + 1) := by
    rw [div_lt_iff₀ hpos]
    calc (num : ℚ) < 10 ^ (width num : Int) := hnumHigh
      _ = 10 ^ (rough + 1) * 10 ^ (width den - 1 : Int) := by
          rw [← zpow_add₀ (by norm_num)]
          congr 1
          omega
      _ ≤ 10 ^ (rough + 1) * den := mul_le_mul_of_nonneg_left hdenLow (ten_zpow_pos _).le
  have hone : (onGrid num den rough).2 ≤ (onGrid num den rough).1 ↔ (10 : ℚ) ^ rough ≤ num / den := by
    have hle := le_ratio_iff (onGrid_pos num hden rough) 1
    rw [one_mul, ratio_onGrid num hden, Nat.cast_one, zpow_neg, ← div_eq_mul_inv, le_div_iff₀ (ten_zpow_pos _),
      one_mul] at hle
    exact hle
  unfold leading
  simp only [hrough]
  split
  · next h =>
    rw [show rough + 1 - 1 = rough by ring]
    exact ⟨hone.1 h, hhigh⟩
  · next h => exact ⟨hlow, not_le.1 fun hge => h (hone.2 hge)⟩

/-- The neighbours of a rational on a decimal grid. -/
theorem neighbours (num : Nat) (hden : 0 < den) (e : Int) :
    value ⟨(onGrid num den e).1 / (onGrid num den e).2, e⟩ ≤ num / den ∧
      (num / den : ℚ) < value ⟨(onGrid num den e).1 / (onGrid num den e).2 + 1, e⟩ := by
  have hpos := onGrid_pos num hden e
  have hunit := ten_zpow_pos e
  have hratio : ratio (onGrid num den e) = num / den / 10 ^ e := by
    rw [ratio_onGrid num hden, zpow_neg, ← div_eq_mul_inv]
  generalize onGrid num den e = x at *
  have hle := (le_ratio_iff hpos (x.1 / x.2)).1 (Nat.div_mul_le_self ..)
  have hlt := (div_lt_iff_ratio_lt hpos (x.1 / x.2 + 1)).1 (Nat.lt_succ_self _)
  rw [hratio, le_div_iff₀ hunit] at hle
  rw [hratio, div_lt_iff₀ hunit] at hlt
  exact ⟨hle, hlt⟩

/-! ## Candidates -/

theorem roundDiv_eq_or (n d : Nat) : roundDiv n d = n / d ∨ roundDiv n d = n / d + 1 := by
  unfold roundDiv
  simp only
  split_ifs <;> omega

/-- What is taken has passed the test. -/
theorem readsBack_of_candidate? {e : Int} {c : Nat} (h : candidate? m q num den e = some c) :
    readsBack m q c e = true := by
  unfold candidate? at h
  simp only at h
  split at h
  · next hlow hhigh =>
    cases h
    rcases roundDiv_eq_or (onGrid num den e).1 (onGrid num den e).2 with heq | heq <;> rwa [heq]
  · next hlow _ =>
    cases h
    exact hlow
  · next _ hhigh =>
    cases h
    exact hhigh
  · cases h

theorem exists_candidate? {e : Int} (h : readsBack m q ((onGrid num den e).1 / (onGrid num den e).2) e = true ∨
    readsBack m q ((onGrid num den e).1 / (onGrid num den e).2 + 1) e = true) :
    ∃ c, candidate? m q num den e = some c := by
  unfold candidate?
  simp only
  split
  · exact ⟨_, rfl⟩
  · exact ⟨_, rfl⟩
  · exact ⟨_, rfl⟩
  · next hlow hhigh =>
    rw [hlow, hhigh] at h
    exact absurd h (by decide)

/-! ## Seventeen digits -/

theorem value_succ (c : Nat) (e : Int) : value ⟨c + 1, e⟩ = value ⟨c, e⟩ + 10 ^ e := by
  simp only [value, Nat.cast_add, Nat.cast_one]
  ring

/-- On a grid that is fine enough the nearer neighbour of a float is a rational of its interval. -/
theorem roundsTo_neighbour (hc : Canonical m q) (hm : 0 < m) {c : Nat} {e : Int}
    (hfine : (10 : ℚ) ^ e * 10 ^ 16 ≤ m * 2 ^ q) (hlow : value ⟨c, e⟩ ≤ m * 2 ^ q)
    (hhigh : m * 2 ^ q < value ⟨c + 1, e⟩) :
    RoundsTo m q (value ⟨c, e⟩) ∨ RoundsTo m q (value ⟨c + 1, e⟩) := by
  have hunit := two_zpow_pos (q - 2)
  have hpow := two_zpow_succ (q - 2) 2
  rw [show q - 2 + (2 : Nat) = q by push_cast; ring] at hpow
  rw [value_succ] at hhigh ⊢
  rw [hpow] at hfine hlow hhigh
  generalize value ⟨c, e⟩ = a at *
  generalize (10 : ℚ) ^ e = step at *
  obtain ⟨u, hu⟩ : ∃ u : ℚ, 2 ^ (q - 2) = u := ⟨_, rfl⟩
  have hrounds {y : ℚ} (hlt : lowest m q * u < y) (hgt : y < (4 * m + 2) * u) : RoundsTo m q y := by
    rw [← hu] at hlt hgt
    exact ⟨hlt.le, hgt.le, fun _ => ⟨hlt, hgt⟩⟩
  rw [hu] at hunit hfine hlow hhigh
  have hmu : (m : ℚ) * u ≤ (2 ^ 53 - 1) * u := by
    have : (m : ℚ) + 1 ≤ 2 ^ 53 := by exact_mod_cast hc.lt
    exact mul_le_mul_of_nonneg_right (by linarith) hunit.le
  have hstep : step < 4 * u := by linarith
  -- half a step is less than the room below the float
  have hroom : lowest m q * u + step / 2 < 4 * m * u := by
    unfold lowest
    split
    · next h =>
      have hm : (m : ℚ) = 2 ^ 52 := by exact_mod_cast h.1
      have hcast : ((4 * m - 1 : Nat) : ℚ) = 4 * m - 1 := by
        rw [Nat.cast_sub (by omega)]
        push_cast
        ring
      rw [hm] at hfine
      rw [hcast, hm]
      linarith
    · have hcast : ((4 * m - 2 : Nat) : ℚ) = 4 * m - 2 := by
        rw [Nat.cast_sub (by omega)]
        push_cast
        ring
      rw [hcast]
      linarith
  have hstepPos : 0 < step := by linarith
  rcases le_or_gt (4 * m * u - a) (step / 2) with hnear | hfar
  · exact .inl (hrounds (by linarith) (by linarith))
  · exact .inr (hrounds (by linarith) (by linarith))

/-! ## The shortest decimal -/

theorem value_stripZeros (fuel : Nat) (d : Decimal) : (stripZeros fuel d).value = d.value := by
  induction fuel generalizing d with
  | zero => rfl
  | succ fuel ih =>
    rcases d with ⟨c, e⟩
    rw [stripZeros]
    split
    · next h =>
      have hten : c = 10 * (c / 10) := by omega
      rw [ih]
      simp only [value]
      conv_rhs => rw [hten]
      rw [zpow_add₀ (by norm_num)]
      push_cast
      ring
    · rfl

/-- The decimal with some number of digits, if there is one. -/
def withDigits? (m : Nat) (q : Int) (num den i : Nat) : Option Decimal :=
  (candidate? m q num den (leading num den - (i + 1 : Nat))).map (⟨·, leading num den - (i + 1 : Nat)⟩)

theorem shortest_eq (m : Nat) (q : Int) : shortest m q =
    match (List.range 17).findSome? (withDigits? m q (timesPower 2 m q).1 (timesPower 2 m q).2) with
    | some d => stripZeros 20 d
    | none => ⟨m, q⟩ := by
  unfold shortest timesPower
  rfl

theorem roundsTo_of_withDigits? {i : Nat} {d : Decimal} (h : withDigits? m q num den i = some d) :
    RoundsTo m q d.value := by
  obtain ⟨c, hc, rfl⟩ := Option.map_eq_some_iff.1 h
  exact (readsBack_iff ..).1 (readsBack_of_candidate? hc)

/-- With seventeen digits a decimal is found. -/
theorem exists_withDigits? (hc : Canonical m q) (hm : 0 < m) (hnum : 0 < num) (hden : 0 < den)
    (hratio : (num / den : ℚ) = m * 2 ^ q) : ∃ d, withDigits? m q num den 16 = some d := by
  let e : Int := leading num den - (16 + 1 : Nat)
  have hfine : (10 : ℚ) ^ e * 10 ^ 16 ≤ m * 2 ^ q := by
    rw [← hratio, ← zpow_natCast, ← zpow_add₀ (by norm_num),
      show e + ((16 : Nat) : Int) = leading num den - 1 by simp only [e]; omega]
    exact (leading_bounds hnum hden).1
  obtain ⟨hlow, hhigh⟩ := neighbours num hden e
  rw [hratio] at hlow hhigh
  obtain ⟨c, hcandidate⟩ := exists_candidate? ((roundsTo_neighbour hc hm hfine hlow hhigh).imp
    (readsBack_iff ..).2 (readsBack_iff ..).2)
  exact ⟨⟨c, e⟩, Option.map_eq_some_iff.2 ⟨c, hcandidate, rfl⟩⟩

/-- The shortest decimal of a float is rounded to the float. -/
theorem roundsTo_shortest (hc : Canonical m q) (hm : 0 < m) : RoundsTo m q (shortest m q).value := by
  obtain ⟨hnum, hden⟩ := timesPower_pos (b := 2) (by decide) hm q
  obtain ⟨d, hd⟩ := exists_withDigits? hc hm hnum hden (ratio_timesPower 2 m q)
  rw [shortest_eq]
  rcases hfound : (List.range 17).findSome? (withDigits? m q (timesPower 2 m q).1 (timesPower 2 m q).2) with
    _ | found
  · rw [List.findSome?_eq_none_iff.1 hfound 16 (List.mem_range.2 (by decide))] at hd
    cases hd
  · obtain ⟨i, -, hi⟩ := List.exists_of_findSome?_eq_some hfound
    show RoundsTo m q (stripZeros 20 found).value
    rw [value_stripZeros]
    exact roundsTo_of_withDigits? hi

/-! ## Reading -/

theorem two_pow_le_ten_pow {a b : Nat} (h : a ≤ 3 * b) : (2 : ℚ) ^ a ≤ 10 ^ b :=
  calc (2 : ℚ) ^ a ≤ 2 ^ (3 * b) := pow_le_pow_right₀ (by norm_num) h
    _ = 8 ^ b := by rw [pow_mul]; norm_num
    _ ≤ 10 ^ b := pow_le_pow_left₀ (by norm_num) (by norm_num) b

/-- A decimal in the interval of a positive float has digits. -/
theorem digits_pos {d : Decimal} (hm : 0 < m) (h : RoundsTo m q d.value) : 0 < d.digits := by
  by_contra hzero
  have hpos := h.pos hm
  rw [value, show d.digits = 0 by omega, Nat.cast_zero, zero_mul] at hpos
  exact lt_irrefl _ hpos

theorem floatOfDecimal_unfold (negative : Bool) (digits : Nat) (e : Int) : floatOfDecimal negative digits e =
    if digits = 0 ∨ e + width digits < -400 then floatOfBits negative 0
    else if 400 < e + width digits then floatInfinity negative
    else
      match nearestBits? (timesPower 10 digits e).1 (timesPower 10 digits e).2 with
      | some bits => floatOfBits negative bits
      | none => floatInfinity negative := by
  unfold floatOfDecimal timesPower
  rfl

/-- A decimal in the interval of a float is read as the float. -/
theorem floatOfDecimal_eq (hc : Canonical m q) (hm : 0 < m) {d : Decimal} (negative : Bool)
    (h : RoundsTo m q d.value) :
    floatOfDecimal negative d.digits d.exponent = floatOfBits negative (magnitudeBits m q) := by
  have hdigits := digits_pos hm h
  rcases d with ⟨digits, e⟩
  simp only at hdigits ⊢
  obtain ⟨hlow, hhigh⟩ := width_bounds hdigits
  have hten := ten_zpow_pos e
  have hleast : ¬ e + width digits < -400 := by
    intro hsmall
    have hvalue : value ⟨digits, e⟩ < 10 ^ (-400 : Int) := by
      have hlt := mul_lt_mul_of_pos_right hhigh hten
      rw [← zpow_add₀ (by norm_num)] at hlt
      exact hlt.trans_le (zpow_le_zpow_right₀ (by norm_num) (by omega))
    have hpow : (10 : ℚ) ^ (-400 : Int) ≤ 2 ^ (-1075 : Int) := by
      rw [zpow_neg, zpow_neg, zpow_ofNat, zpow_ofNat]
      exact inv_anti₀ (by positivity) (two_pow_le_ten_pow (by decide))
    exact absurd (hvalue.trans_le hpow) (not_lt.2 (h.le hc hm))
  have hlargest : ¬ 400 < e + width digits := by
    intro hlarge
    have hvalue : (10 : ℚ) ^ (400 : Int) ≤ value ⟨digits, e⟩ := by
      have hle := mul_le_mul_of_nonneg_right hlow hten.le
      rw [← zpow_add₀ (by norm_num)] at hle
      exact (zpow_le_zpow_right₀ (by norm_num) (by omega)).trans hle
    have hq := hc.largest
    have hpow : (2 : ℚ) ^ (q + 53) ≤ 10 ^ (400 : Int) := by
      refine (zpow_le_zpow_right₀ (by norm_num) (show q + 53 ≤ 1024 by omega)).trans ?_
      rw [zpow_ofNat, zpow_ofNat]
      exact two_pow_le_ten_pow (by decide)
    exact absurd (hvalue.trans_lt (h.lt hc)) (not_lt.2 hpow)
  obtain ⟨hnum, hden⟩ := timesPower_pos (b := 10) (by decide) hdigits e
  have hratio := ratio_timesPower 10 digits e
  rw [floatOfDecimal_unfold, if_neg (not_or.2 ⟨hdigits.ne', hleast⟩), if_neg hlargest, nearestBits?_eq hc hm hnum hden]
  rw [ratio, Nat.cast_ofNat] at hratio
  rw [hratio]
  exact h

end Winnow.Decimal
