import Winnow.Failure
/-! # Bounds

The bound of a store is a number of one or more, of which the whole part counts. -/

namespace Winnow

/-- Stands for a bound that is beyond all finite ones. -/
def noBound : Nat := Nat.pow 2 64

/-- The bound that a value gives; a smaller number is refused as it was written. -/
def readBound (refusal : Value → Refusal) (v : Value) : Outcome Nat :=
  match v.number? with
  | none => .error (.fault .typeMismatch)
  | some x =>
    if x.compare (.ofInt 1) = some .lt then .error (.refused (refusal v))
    else .ok ((x.truncate?.map Int.toNat).getD noBound)

/-- A whole number is a bound when it is positive. -/
theorem readBound_int (refusal : Value → Refusal) (n : Int) :
    readBound refusal (.int n) = if n < 1 then .error (.refused (refusal (.int n))) else .ok n.toNat := by
  have hp : Int.pow 2 0 = 1 := rfl
  have h : (Exact.ofInt n).compare (.ofInt 1) = some (compare n 1) := by
    simp [Exact.compare, Exact.ofInt, Exact.scaled, hp]
  have ht : (Exact.ofInt n).truncate? = some n := by simp [Exact.truncate?, Exact.ofInt, hp]
  have hlt : compare n 1 = Ordering.lt ↔ n < 1 := Int.compare_eq_lt
  simp only [readBound, Value.number?, h, ht, Option.some.injEq, hlt, Option.map_some, Option.getD_some]

end Winnow
