import Mathlib
import Winnow.Number.Exact
/-! # Floats and their bits

A float is given back by its bits: packing what was unpacked from valid bits gives the same bits. The
parts of a bit pattern decide the case, and each case packs into the parts it was read from. -/

namespace Winnow.FloatBits
open Float.Model Float.Model.UnpackedFloat

abbrev format : Format := .binary64

variable (b : BitVec format.numBits)

theorem toBitVec_ofBitVec (s : BitVec 1) : (Sign.ofBitVec s).toBitVec = s := by
  revert s; decide

/-- A bit pattern is made of its sign, exponent and mantissa. -/
theorem packComponents_unpack :
    packComponents format (Sign.ofBitVec (unpackSign b)) (unpackExponent b) (unpackMantissa b) = b := by
  rw [packComponents, toBitVec_ofBitVec]
  apply BitVec.eq_of_getLsbD_eq
  intro i hi
  have hi : i < 64 := hi
  simp only [unpackSign, unpackExponent, unpackMantissa, BitVec.getLsbD_append, BitVec.getLsbD_cast,
    BitVec.getLsbD_extractLsb]
  rcases Nat.lt_or_ge i 52 with hm | hm
  · simp [hm]
  · have hm' : ¬ i < 52 := Nat.not_lt.2 hm
    rcases Nat.lt_or_ge (i - 52) 11 with he | he
    · simp only [hm', he, if_true, if_false]
      rw [Nat.add_sub_cancel' hm]
      simp
    · obtain rfl : i = 63 := by omega
      simp [BitVec.getLsbD]

theorem mantissa_lt : (unpackMantissa b).toNat < 2 ^ 52 := (unpackMantissa b).isLt

variable {b}

theorem exponent_lt (h : unpackExponent b ≠ -1#_) : (unpackExponent b).toNat + 1 < 2 ^ 11 := by
  have hlt : (unpackExponent b).toNat < 2 ^ 11 := (unpackExponent b).isLt
  have hne : (unpackExponent b).toNat ≠ 2 ^ 11 - 1 := fun hall => h (BitVec.eq_of_toNat_eq hall)
  omega

theorem mantissa_pos (h : unpackMantissa b ≠ 0#_) : (unpackMantissa b).toNat ≠ 0 := by
  simpa [BitVec.toNat_eq] using h

theorem implicit_bit : (1#1 ++ unpackMantissa b).toNat = 2 ^ 52 + (unpackMantissa b).toNat := by
  have hlt := mantissa_lt b
  rw [BitVec.toNat_append, ← Nat.shiftLeft_add_eq_or_of_lt hlt]
  simp

/-- The bits of a float of which the mantissa has no implicit bit. -/
theorem pack_subnormal (s : Sign) {m : Nat} (hm : 0 < m) (hlt : m < 2 ^ 52) :
    UnpackedFloat.pack format (.finite s m (-1074) hm) = packComponents format s 0#_ (BitVec.ofNat _ m) := by
  have hlog : m.log2 < 52 := (Nat.log2_lt (by omega)).2 hlt
  simp only [UnpackedFloat.pack]
  rw [if_neg (by decide), if_neg (by simp only [Format.mantissaBits]; omega)]

/-- The bits of a float of which the mantissa has its implicit bit. -/
theorem pack_normal (s : Sign) {m e : Nat} (hlt : m < 2 ^ 52) (he : e + 1 < 2 ^ 11)
    (hpos : 0 < 2 ^ 52 + m) :
    UnpackedFloat.pack format (.finite s (2 ^ 52 + m) ((e : Int) - 1075) hpos) =
      packComponents format s (BitVec.ofNat _ e) (BitVec.ofNat _ m) := by
  have hlog : (2 ^ 52 + m).log2 = 52 := (Nat.log2_eq_iff (by omega)).2 ⟨by omega, by omega⟩
  have hbiased : ((e : Int) - 1075 + (1023 : Nat) + (52 : Nat)).toNat = e := by omega
  have hm : BitVec.ofNat 52 (2 ^ 52 + m) = BitVec.ofNat 52 m := by
    apply BitVec.eq_of_toNat_eq; simp
  simp only [UnpackedFloat.pack]
  rw [show format.exponentBias = 1023 from rfl, hbiased, if_neg (by simp; omega),
    if_pos (by rw [hlog]; rfl), hm]

theorem pack_unpack (hv : format.Valid b) :
    UnpackedFloat.pack format (UnpackedFloat.unpack format b) = b := by
  have parts := packComponents_unpack b
  simp only [UnpackedFloat.unpack]
  by_cases hall : unpackExponent b = -1#_
  · by_cases hm : unpackMantissa b = 0#_
    · simp only [hall, hm, if_true, UnpackedFloat.pack, packedInfinity]
      rwa [hall, hm] at parts
    · -- not a number: valid bits have one form of it
      simp only [hall, hm, if_true, if_false, UnpackedFloat.pack]
      exact (hv.eq_packedNaN hall hm).symm
  rw [if_neg hall]
  by_cases hzero : unpackExponent b = 0#_
  · by_cases hm : unpackMantissa b = 0#_
    · simp only [hzero, hm, if_true, dif_pos, UnpackedFloat.pack, packedZero]
      rwa [hzero, hm] at parts
    · have hm0 := mantissa_pos hm
      have packed := pack_subnormal (Sign.ofBitVec (unpackSign b)) (by omega) (mantissa_lt b)
      rw [BitVec.ofNat_toNat, BitVec.setWidth_eq, ← hzero, parts] at packed
      rw [if_pos hzero, dif_neg hm]
      simp only [hzero]
      exact packed
  · have packed := pack_normal (Sign.ofBitVec (unpackSign b)) (mantissa_lt b) (exponent_lt hall)
      (by omega)
    rw [BitVec.ofNat_toNat, BitVec.setWidth_eq, BitVec.ofNat_toNat, BitVec.setWidth_eq, parts] at packed
    rw [if_neg hzero]
    refine Eq.trans ?_ packed
    congr 2
    exact implicit_bit

theorem ofBits_toBits (f : Float) : Float.ofBits f.toBits = f := by
  rcases f with ⟨⟨bits, valid⟩⟩
  have hbits : UInt64.ofBitVec
      (UnpackedFloat.pack format (UnpackedFloat.unpack format bits.toBitVec)) = bits := by
    rw [pack_unpack valid]
  simp only [Float.ofBits, Float.toBits, Float.Model.ofBits, Float.Model.pack]
  congr

theorem toNat_unpackExponent (b : BitVec format.numBits) : (unpackExponent b).toNat = b.toNat / 2 ^ 52 % 2 ^ 11 := by
  simp [unpackExponent, Nat.shiftRight_eq_div_pow]

theorem toNat_unpackMantissa (b : BitVec format.numBits) : (unpackMantissa b).toNat = b.toNat % 2 ^ 52 := by
  simp [unpackMantissa]

/-- There is one float that is no number. -/
theorem eq_floatNaN {f : Float} (hexponent : f.toBits.toNat / 2 ^ 52 % 2 ^ 11 = 2047)
    (hmantissa : f.toBits.toNat % 2 ^ 52 ≠ 0) : f = floatNaN := by
  let b : BitVec format.numBits := f.toBits.toBitVec
  have hvalid : format.Valid b := f.toModel.valid
  have hall : unpackExponent b = -1#_ := by
    apply BitVec.eq_of_toNat_eq
    rw [toNat_unpackExponent]
    exact hexponent
  have hne : unpackMantissa b ≠ 0#_ := by
    intro hzero
    have := congrArg BitVec.toNat hzero
    rw [toNat_unpackMantissa] at this
    exact hmantissa this
  have hbits : f.toBits = UInt64.ofNat (2047 * Nat.pow 2 52 + Nat.pow 2 51) :=
    UInt64.toBitVec_inj.1 (hvalid.eq_packedNaN hall hne)
  rw [← ofBits_toBits f, hbits]
  rfl

end Winnow.FloatBits
