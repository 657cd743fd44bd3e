import Winnow.Failure
/-! # Scans

A scan looks at items one after the other and keeps those that pass a test, until it has as many as are
wanted. The test may change a state; when it fails, the scan ends. Items behind the last one that is
wanted are not looked at. -/

namespace Winnow

/-- What a scan came to. -/
structure Scan (σ α : Type) where
  found : List α
  /-- how many items were looked at -/
  read : Nat
  failure : Option Failure
  state : σ

namespace Scan

variable {σ α : Type}

/-- A scan that looks at nothing. -/
def idle (s : σ) : Scan σ α := ⟨[], 0, none, s⟩

/-- The scan that also looks at an item before all others, and keeps it. -/
def keeping (x : α) (r : Scan σ α) : Scan σ α := { r with found := x :: r.found, read := r.read + 1 }

/-- The scan that also looks at an item before all others, and drops it. -/
def dropping (r : Scan σ α) : Scan σ α := { r with read := r.read + 1 }

/-- Scans items; `wanted` is the number to be kept, if there is a limit. -/
def run (test : σ → α → Outcome Bool × σ) : σ → Option Nat → List α → Scan σ α
  | s, some 0, _ => idle s
  | s, _, [] => idle s
  | s, wanted, x :: xs =>
    match test s x with
    | (.error e, s) => ⟨[], 1, some e, s⟩
    | (.ok true, s) => (run test s (wanted.map (· - 1)) xs).keeping x
    | (.ok false, s) => (run test s wanted xs).dropping

/-- The items that were kept, unless the test failed. -/
def outcome (r : Scan σ α) : Outcome (List α) :=
  match r.failure with
  | none => .ok r.found
  | some e => .error e

/-- Did the items end before as many were kept as are wanted? -/
def isShort (r : Scan σ α) (wanted : Option Nat) : Bool :=
  match wanted with
  | none => true
  | some n => r.found.length < n

@[simp] theorem run_nil (test : σ → α → Outcome Bool × σ) (s : σ) (wanted : Option Nat) :
    run test s wanted [] = idle s := by
  cases wanted with
  | none => rfl
  | some n => cases n <;> rfl

@[simp] theorem run_zero (test : σ → α → Outcome Bool × σ) (s : σ) (xs : List α) :
    run test s (some 0) xs = idle s := by
  cases xs <;> rfl

end Scan
end Winnow
