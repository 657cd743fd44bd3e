import Winnow.Chunks
/-! # What chunks cover

A list in chunks of a size: the chunks joined are the list, none is empty or longer than the size, and
all but the last are as long as it. -/

namespace Winnow.Chunks

variable {α : Type} {size room : Nat} {current items : List α}

/-- Are the items cut into chunks of a size, with the rest in the last chunk? -/
structure Covers (size : Nat) (items : List α) (chunks : List (List α)) : Prop where
  flatten : chunks.flatten = items
  nonempty : ∀ c ∈ chunks, c ≠ []
  atMost : ∀ c ∈ chunks, c.length ≤ size
  full : ∀ c ∈ chunks.dropLast, c.length = size

theorem Covers.cons {c : List α} {chunks : List (List α)} (h : Covers size items chunks) (hpos : 1 ≤ size)
    (hc : c.length = size) : Covers size (c ++ items) (c :: chunks) where
  flatten := by rw [List.flatten_cons, h.flatten]
  nonempty c' hc' := by
    rcases List.mem_cons.1 hc' with rfl | hc'
    · exact List.ne_nil_of_length_pos (by omega)
    · exact h.nonempty c' hc'
  atMost c' hc' := by
    rcases List.mem_cons.1 hc' with rfl | hc'
    · exact Nat.le_of_eq hc
    · exact h.atMost c' hc'
  full c' hc' := by
    cases chunks with
    | nil => cases hc'
    | cons d chunks =>
      rcases List.mem_cons.1 hc' with rfl | hc'
      · exact hc
      · exact h.full c' hc'

theorem Covers.nil : Covers size ([] : List α) [] where
  flatten := rfl
  nonempty _ hc := nomatch hc
  atMost _ hc := nomatch hc
  full _ hc := nomatch hc

theorem Covers.last (hne : current ≠ []) (hlen : current.length ≤ size) : Covers size current [current] where
  flatten := by simp
  nonempty c hc := by rwa [List.mem_singleton.1 hc]
  atMost c hc := by rwa [List.mem_singleton.1 hc]
  full _ hc := nomatch hc

/-- The invariant of filling: the current chunk and the room in it make up the size. -/
theorem covers_fill (hroom : 1 ≤ room) (hsize : current.length + room = size) :
    Covers size (current ++ items) (fill size room current items) := by
  induction items generalizing room current with
  | nil =>
    rw [fill, List.append_nil]
    cases current with
    | nil => exact .nil
    | cons x xs => exact .last (fun h => nomatch h) (by omega)
  | cons x items ih =>
    have hlen : (current ++ [x]).length = current.length + 1 := List.length_append
    rw [fill, List.append_cons]
    split
    · have hrest : Covers size ([] ++ items) (fill size size [] items) := ih (by omega) (Nat.zero_add _)
      exact hrest.cons (by omega) (by omega)
    · exact ih (by omega) (by omega)

theorem split_covers (hsize : 1 ≤ size) :
    ∃ chunks, split size items = .ok chunks ∧ Covers size items chunks := by
  have hcovers : Covers size ([] ++ items) (fill size size [] items) := covers_fill hsize (Nat.zero_add _)
  refine ⟨fill size size [] items, ?_, hcovers⟩
  rw [split, if_neg (by omega), Int.toNat_natCast]

end Winnow.Chunks
