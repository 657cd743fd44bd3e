import Winnow.Value.Order
/-! # Induction on values

What holds of a value whenever it holds of its immediate parts holds of every value. -/

namespace Winnow.Value

/-- The values of which a value is made. -/
def parts : Value → List Value
  | list items | tuple items | set items => items
  | object entries => entries.flatMap fun e => [e.1, e.2]
  | record fields => fields.map (·.2)
  | _ => []

theorem mem_parts_object {entries : List (Value × Value)} {e : Value × Value} (he : e ∈ entries) :
    e.1 ∈ (object entries).parts ∧ e.2 ∈ (object entries).parts := by
  constructor <;> exact List.mem_flatMap.2 ⟨e, he, by simp⟩

theorem sizeOf_lt_of_mem_parts {v w : Value} (h : w ∈ v.parts) : sizeOf w < sizeOf v := by
  cases v with
  | list items | tuple items | set items =>
    have := List.sizeOf_lt_of_mem (show w ∈ items from h)
    simp only [list.sizeOf_spec, tuple.sizeOf_spec, set.sizeOf_spec]
    omega
  | object entries =>
    obtain ⟨⟨k, v⟩, he, hw⟩ := List.mem_flatMap.1 h
    have := List.sizeOf_lt_of_mem he
    simp only [Prod.mk.sizeOf_spec] at this
    simp only [List.mem_cons, List.not_mem_nil, or_false] at hw
    rcases hw with rfl | rfl <;> simp only [object.sizeOf_spec] <;> omega
  | record fields =>
    obtain ⟨⟨k, v⟩, he, rfl⟩ := List.mem_map.1 h
    have := List.sizeOf_lt_of_mem he
    simp only [Prod.mk.sizeOf_spec] at this
    simp only [record.sizeOf_spec]
    omega
  | _ => cases h

@[elab_as_elim]
theorem induction {P : Value → Prop} (step : ∀ v, (∀ w ∈ v.parts, P w) → P v) (v : Value) : P v :=
  step v fun w _ => induction step w
termination_by sizeOf v
decreasing_by exact sizeOf_lt_of_mem_parts ‹_›

end Winnow.Value
