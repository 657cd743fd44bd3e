import Winnow.Failure
/-! # Chunks

A list in chunks of a size; only the last chunk may be shorter, and none is empty. -/

namespace Winnow.Chunks

variable {α : Type}

/-- Fills the current chunk, which has room for some items, then goes on with chunks of the size. -/
def fill (size room : Nat) (current : List α) : List α → List (List α)
  | [] => if current.isEmpty then [] else [current]
  | x :: xs =>
    if room ≤ 1 then (current ++ [x]) :: fill size size [] xs
    else fill size (room - 1) (current ++ [x]) xs

/-- The items in chunks. -/
def split (size : Int) (items : List α) : Outcome (List (List α)) :=
  if size < 1 then .error (.refused (.chunkSize size))
  else .ok (fill size.toNat size.toNat [] items)

end Winnow.Chunks
