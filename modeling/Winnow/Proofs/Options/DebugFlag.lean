import Winnow.Proofs.Options.Entries
/-! # The flag for traces among the options

The flag has one name, so of the entries of a mapping with the flag at the end that last one counts, and it
changes nothing that is read for other options. -/

namespace Winnow.Options

variable {above below : Layer} {name : OptionName} {base o : Options} {b b' : Bool}

/-- Only its own entries count for an option. -/
theorem Layer.get?_of_ne {v v' : Value} (hname : name ≠ .debug) :
    Layer.get? (below ++ (.debug, v) :: above) name = Layer.get? (below ++ (.debug, v') :: above) name := by
  simp [Layer.get?, List.find?_append, hname.symm]

theorem Layer.get?_debug {v : Value} (habove : ∀ e ∈ above, e.1 ≠ .debug) :
    Layer.get? (below ++ (.debug, v) :: above) .debug = some v := by
  have hnone : above.reverse.find? (fun e => decide (e.1 = .debug)) = none := by
    simpa [List.find?_eq_none] using habove
  simp [Layer.get?, List.find?_append, hnone]

theorem withLayer_debug (habove : ∀ e ∈ above, e.1 ≠ .debug) :
    base.withLayer (below ++ (.debug, .bool b) :: above) =
      (base.withLayer (below ++ (.debug, .bool b') :: above)).map fun o => { o with debug := b } := by
  have hother {α : Type} (name : OptionName) (hname : name ≠ .debug) (read : Value → Outcome α) (a : α) :
      layered (below ++ (.debug, .bool b) :: above) name read a =
        layered (below ++ (.debug, .bool b') :: above) name read a := by
    rw [layered, layered, Layer.get?_of_ne hname]
  have hdebug (c : Bool) (a : Bool) :
      layered (below ++ (.debug, .bool c) :: above) .debug (readFlag .debug) a = .ok c := by
    rw [layered, Layer.get?_debug habove]
    rfl
  unfold withLayer
  simp (disch := decide) only [hdebug, hother, Outcome.ok_bind, Outcome.map_bind]
  rfl

/-- What is left when entries are read, the flag for traces among them. -/
theorem readLayer_debug {es fs : List (Value × Value)} (v : Value) :
    readLayer (es ++ (.text OptionName.debug.plain, v) :: fs) =
      readLayer es >>= fun below => readLayer fs >>= fun above => .ok (below ++ (.debug, v) :: above) := by
  rw [readLayer, List.mapM_append, List.mapM_cons]
  show (readLayer es >>= fun below => (readLayer fs >>= fun above => pure ((OptionName.debug, v) :: above)) >>=
    fun rest => pure (below ++ rest)) = _
  cases readLayer es <;> cases readLayer fs <;> rfl

/-- No name but the plain one is a name of the flag. -/
theorem ne_debug_of_readLayer {es : List (Value × Value)} {layer : Layer} (hes : ∀ e ∈ es, isPlain e.1 = false)
    (h : readLayer es = .ok layer) : ∀ e ∈ layer, e.1 ≠ .debug := by
  intro e he hdebug
  rw [readLayer_eq, Outcome.mapM_eq_ok] at h
  obtain ⟨⟨k, v⟩, hkv, hread⟩ := (Paired.of_forall₂ h).2 e he
  have hspells : Spells k .debug := hdebug ▸ (readEntry_eq_ok.1 hread).1
  obtain rfl : k = .text OptionName.debug.plain := hspells.elim id id
  cases hes _ hkv

theorem plainFirst_debug (es : List (Value × Value)) (v : Value) :
    plainFirst (es ++ [(.text OptionName.debug.plain, v)]) =
      es.filter (isPlain ·.1) ++ (.text OptionName.debug.plain, v) :: es.filter (!isPlain ·.1) := by
  have hplain : isPlain (.text OptionName.debug.plain) = true := rfl
  simp [plainFirst, List.filter_append, hplain]

theorem overEntries_debug (es : List (Value × Value)) :
    base.overEntries (es ++ [(.text OptionName.debug.plain, .bool b)]) =
      (base.overEntries (es ++ [(.text OptionName.debug.plain, .bool b')])).map fun o => { o with debug := b } := by
  simp only [overEntries, plainFirst_debug, readLayer_debug]
  cases readLayer (es.filter (isPlain ·.1)) with
  | error f => rfl
  | ok below =>
    cases habove : readLayer (es.filter (!isPlain ·.1)) with
    | error f => rfl
    | ok above =>
      refine withLayer_debug (ne_debug_of_readLayer (fun e he => ?_) habove)
      simpa using List.of_mem_filter he

end Winnow.Options
