import Winnow.Number.Text
/-! # Decimal texts

The decimal text of a whole number tells it apart from all others, and a whole number is its own whole
part. -/

namespace Winnow

theorem natText_inj {m n : Nat} (h : m.repr = n.repr) : m = n := by
  have h := congrArg (fun s => Nat.ofDigitChars 10 s.toList 0) h
  simpa using h

theorem natText_ne_negative {m n : Nat} : m.repr ≠ "-" ++ n.repr := by
  intro h
  have hmem : '-' ∈ m.repr.toList := by rw [h]; simp
  rw [Nat.toList_repr] at hmem
  have hdigit := Nat.isDigit_of_mem_toDigits (by decide) (by decide) hmem
  simp at hdigit

theorem intText_inj {i j : Int} (h : toString i = toString j) : i = j := by
  rcases i with m | m <;> rcases j with n | n
  · rw [natText_inj h]
  · exact absurd h natText_ne_negative
  · exact absurd h.symm natText_ne_negative
  · have h : "-" ++ (m + 1).repr = "-" ++ (n + 1).repr := h
    have := natText_inj ((String.append_right_inj _).1 h)
    omega

theorem Exact.truncate?_ofInt (i : Int) : (Exact.ofInt i).truncate? = some i := by
  show some (i * Int.pow 2 0) = some i
  rw [show Int.pow 2 0 = 1 from rfl, Int.mul_one]

end Winnow
