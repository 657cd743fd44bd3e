import Mathlib.Tactic.Ring
import Mathlib.Algebra.Order.Ring.Nat
import Winnow.Transport.Bytes
/-! # Bytes read back

Numbers of a width, numbers in two's complement and texts are read back from their bytes. Each law is
the one a reader needs: the length of what was written, and what the reader makes of it with other
bytes behind it. -/

namespace Winnow.Bytes

@[simp] theorem length_ofNat (width n : Nat) : (ofNat width n).length = width := by
  induction width with
  | zero => rfl
  | succ width ih => simp [ofNat, ih]

@[simp] theorem length_ofInt (width : Nat) (i : Int) : (ofInt width i).length = width :=
  length_ofNat width _

/-- The fold of `toNat` from a number on. -/
theorem foldl_ofNat (width n start : Nat) :
    (ofNat width n).foldl (fun n b => n * 256 + b.toNat) start = start * 256 ^ width + n % 256 ^ width := by
  induction width generalizing start with
  | zero => simp [ofNat, Nat.mod_one]
  | succ width ih =>
    have digit : (UInt8.ofNat (n / Nat.pow 256 width % 256)).toNat = n / 256 ^ width % 256 := by
      rw [UInt8.toNat_ofNat', Nat.mod_eq_of_lt (Nat.mod_lt _ (by decide))]; rfl
    rw [ofNat, List.foldl_cons, ih, digit, Nat.pow_succ, Nat.mod_mul]
    ring

theorem toNat_ofNat (width n : Nat) : toNat (ofNat width n) = n % 256 ^ width := by
  rw [toNat, foldl_ofNat, Nat.zero_mul, Nat.zero_add]

theorem toNat_ofNat_of_lt {width n : Nat} (h : n < 256 ^ width) : toNat (ofNat width n) = n := by
  rw [toNat_ofNat, Nat.mod_eq_of_lt h]

theorem toInt_ofInt {width : Nat} {i : Int} (hlo : -(256 ^ width / 2 : Nat) ≤ i)
    (hhi : i < (256 ^ width / 2 : Nat)) : toInt (ofInt width i) = i := by
  have hmod : toNat (ofInt width i) = (i % (256 ^ width : Nat)).toNat := by
    have hlt : (i % (256 ^ width : Nat)).toNat < 256 ^ width := by
      have hpos : (0 : Int) < (256 ^ width : Nat) := Int.natCast_pos.2 (Nat.pow_pos (by decide))
      have := Int.emod_lt_of_pos i hpos
      omega
    exact toNat_ofNat_of_lt hlt
  rw [toInt, hmod, length_ofInt]
  show (if _ < 256 ^ width / 2 then _ else _ - ((256 ^ width : Nat) : Int)) = i
  generalize 256 ^ width = m at *
  rcases Int.lt_or_le i 0 with hneg | hpos
  · have hshift : i % (m : Int) = i + m := by
      rw [← Int.add_emod_right, Int.emod_eq_of_lt (by omega) (by omega)]
    rw [hshift, if_neg (by omega)]
    omega
  · have hsame : i % (m : Int) = i := Int.emod_eq_of_lt hpos (by omega)
    rw [hsame, if_pos (by omega)]
    omega

theorem split?_append (a b : List UInt8) : split? a.length (a ++ b) = some (a, b) := by
  simp [split?]

theorem split?_of_length {n : Nat} {a : List UInt8} (h : a.length = n) (b : List UInt8) :
    split? n (a ++ b) = some (a, b) := h ▸ split?_append a b

@[simp] theorem toText?_ofText (s : String) : toText? (ofText s) = some s := by
  have harray : (⟨(ofText s).toArray⟩ : ByteArray) = s.toByteArray := by simp [ofText]
  rw [toText?, harray, String.fromUTF8?, dif_pos s.isValidUTF8]
  rfl

end Winnow.Bytes
