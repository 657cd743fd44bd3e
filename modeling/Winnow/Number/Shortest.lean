import Winnow.Number.Exact
/-! # Shortest digits

The shortest decimal that reads back as a given float, and the nearest of those. For one digit, two
digits and so on the value's two neighbours on that decimal grid are tested against the interval of
rationals that round to the float; the first grid with a hit wins. -/

namespace Winnow

/-- A positive decimal `digits · 10^exponent`. -/
structure Decimal where
  digits : Nat
  exponent : Int
deriving DecidableEq, Repr

namespace Decimal

/-- Drops trailing zeros from the digits; `fuel` bounds their number. -/
def stripZeros : Nat → Decimal → Decimal
  | fuel + 1, ⟨d, e⟩ => if d ≠ 0 ∧ d % 10 = 0 then stripZeros fuel ⟨d / 10, e + 1⟩ else ⟨d, e⟩
  | 0, x => x

/-- Number of decimal digits. -/
def width (d : Nat) : Nat := (Nat.toDigits 10 d).length

/-- `num / den` times `10^(-e)`, as a quotient. -/
def onGrid (num den : Nat) (e : Int) : Nat × Nat :=
  if 0 ≤ e then (num, den * Nat.pow 10 e.toNat) else (num * Nat.pow 10 (-e).toNat, den)

/-- The decimal exponent `k` with `10^(k-1) ≤ num / den < 10^k`. -/
def leading (num den : Nat) : Int :=
  let rough : Int := (width num : Int) - width den
  let (n, d) := onGrid num den rough
  if d ≤ n then rough + 1 else rough

/-- Does `c · 10^e` lie in the interval of rationals that round to `m · 2^q`? -/
def readsBack (m : Nat) (q : Int) (c : Nat) (e : Int) : Bool :=
  -- everything in units of 2^(q-2)
  let (low, high) := (if m = Nat.pow 2 52 ∧ q ≠ -1074 then 4 * m - 1 else 4 * m - 2, 4 * m + 2)
  let unit := q - 2
  let (num, den) := onGrid c 1 (-e)
  let (num, den) := if 0 ≤ unit then (num, den * Nat.pow 2 unit.toNat) else (num * Nat.pow 2 (-unit).toNat, den)
  if m % 2 = 0 then low * den ≤ num && num ≤ high * den else low * den < num && num < high * den

/-- The nearer of the two neighbours `c` and `c + 1` that reads back, a tie to the even one. -/
def candidate? (m : Nat) (q : Int) (num den : Nat) (e : Int) : Option Nat :=
  let (n, d) := onGrid num den e
  let c := n / d
  match readsBack m q c e, readsBack m q (c + 1) e with
  | true, true => some (roundDiv n d)
  | true, false => some c
  | false, true => some (c + 1)
  | false, false => none

/-- Shortest decimal of the positive value `m · 2^q`. -/
def shortest (m : Nat) (q : Int) : Decimal :=
  let (num, den) := if 0 ≤ q then (m * Nat.pow 2 q.toNat, 1) else (m, Nat.pow 2 (-q).toNat)
  let k := leading num den
  let found := (List.range 17).findSome? fun i =>
    let e := k - (i + 1 : Nat)
    (candidate? m q num den e).map fun c => (⟨c, e⟩ : Decimal)
  match found with
  | some d => stripZeros 20 d
  | none => ⟨m, q⟩

end Decimal
end Winnow
