import Winnow.Proofs.Options.Layers
import Winnow.Proofs.Order.Written
/-! # Normal forms are read back

An order that is read comes to sort keys, and these are read as they are: as such, written out as mappings, or one by
one as pairs. Options that are written out are read back but for the comparator, which is not written: it is none, or
that of the defaults over which they are laid. -/

namespace Winnow.Options

open Outcome

variable {o o' base : Options} {name name' : OptionName} {v w w' : Value} {keys : List SortKey}

/-! ## Options by their values -/

theorem orderValue_inj {keys' : List SortKey} (h : orderValue keys = orderValue keys') : keys = keys' :=
  List.map_injective_iff.2 (fun _ _ hk => SortKey.toValue_inj (congrArg Canonical.ofValue hk)) (Value.list.inj h)

/-- Options with the same values are the same. -/
theorem eq_of_setting (h : ∀ name, o.setting name = o'.setting name) : o = o' := by
  have hlimit := limitValue_inj (congrArg Canonical.ofValue (h .limit))
  have hcomparator := comparatorValue_inj (congrArg Canonical.ofValue (h .customComparator))
  have horder := orderValue_inj (h .orderBy)
  cases o
  cases o'
  simp only [Options.mk.injEq]
  exact ⟨Value.bool.inj (h .caseSensitive), Int.ofNat_inj.1 (Value.int.inj (h .maxDepth)),
    Value.bool.inj (h .enableCache), horder, hlimit, hcomparator, Value.bool.inj (h .debug),
    Value.bool.inj (h .verbose), Value.bool.inj (h .showTimings), Value.bool.inj (h .colorize),
    Value.bool.inj (h .enablePerformanceMonitoring)⟩

theorem Takes.unique (h : Takes name v w) (h' : Takes name v w') : w = w' :=
  Except.ok.inj ((readSetting_eq_ok.2 h).symm.trans (readSetting_eq_ok.2 h'))

/-! ## Options that are written out -/

/-- The options that are written out: all but the comparator. -/
def writtenNames : List OptionName := OptionName.all.erase .customComparator

def writtenEntries (o : Options) : List (Value × Value) :=
  writtenNames.map fun name => (.text name.plain, o.setting name)

theorem toValue_eq : o.toValue = .object o.writtenEntries := rfl

theorem mem_writtenNames : name ∈ writtenNames ↔ name ≠ .customComparator := by
  cases name <;> decide

theorem spells_plain : Spells (.text name.plain) name' ↔ name = name' := by
  rw [spells_text_iff, ofName?_eq_some.2 (.inl rfl), Option.some.injEq]

theorem names_writtenEntries : Names o.writtenEntries name v ↔ name ≠ .customComparator ∧ v = o.setting name := by
  simp only [Names, writtenEntries, List.mem_map, Prod.mk.injEq]
  constructor
  · rintro ⟨_, ⟨name', hmem, rfl, rfl⟩, hspells⟩
    obtain rfl := spells_plain.1 hspells
    exact ⟨mem_writtenNames.1 hmem, rfl⟩
  · rintro ⟨hname, rfl⟩
    exact ⟨_, ⟨name, mem_writtenNames.2 hname, rfl, rfl⟩, .inl rfl⟩

theorem namesOnce_writtenEntries : NamesOnce o.writtenEntries := by
  rw [NamesOnce, writtenEntries, List.pairwise_map]
  have hnodup : writtenNames.Nodup := by decide
  refine hnodup.imp fun hne name hboth => hne ?_
  rw [spells_plain.1 hboth.1, spells_plain.1 hboth.2]

theorem not_namesUnknown_writtenEntries : ¬NamesUnknown o.writtenEntries := by
  rintro ⟨e, he, hunknown⟩
  obtain ⟨name, -, rfl⟩ := List.mem_map.1 he
  exact hunknown name (.inl rfl)

/-- Laid over others, options that are written out take the place of all but the comparator. -/
theorem withEntries_writtenEntries (ho : o.IsValid) :
    base.withEntries o.writtenEntries = .ok { o with customComparator := base.customComparator } := by
  rcases hr : base.withEntries o.writtenEntries with f | r
  · rcases (withEntries_fails_iff namesOnce_writtenEntries).1 ⟨f, hr⟩ with hunknown | ⟨name, v, hv, hrefused⟩
    · exact absurd hunknown not_namesUnknown_writtenEntries
    · obtain ⟨-, rfl⟩ := names_writtenEntries.1 hv
      exact absurd (isValid_iff.1 ho name) (hrefused _)
  · obtain ⟨htaken, hkept⟩ := setting_withEntries namesOnce_writtenEntries hr
    refine congrArg _ (eq_of_setting fun name => ?_)
    by_cases hname : name = .customComparator
    · subst hname
      exact hkept _ fun v hv => (names_writtenEntries.1 hv).1 rfl
    · have hsame : r.setting name = o.setting name :=
        (htaken name _ (names_writtenEntries.2 ⟨hname, rfl⟩)).unique (isValid_iff.1 ho name)
      rw [hsame]
      cases name with
      | customComparator => exact absurd rfl hname
      | _ => rfl

theorem isPlain_plain : isPlain (.text name.plain) = true := by
  cases name <;> decide +kernel

theorem plainFirst_writtenEntries : plainFirst o.writtenEntries = o.writtenEntries := by
  have hplain : ∀ e ∈ o.writtenEntries, isPlain e.1 = true := by
    intro e he
    obtain ⟨name, -, rfl⟩ := List.mem_map.1 he
    exact isPlain_plain
  rw [plainFirst, List.filter_eq_self.2 hplain, List.filter_eq_nil_iff.2 fun e he => by simp [hplain e he],
    List.append_nil]

/-- By the field `asc` downwards, then as given. -/
def downThenUp : List SortKey.Item := [.value (.tuple [.text "asc", .text "DESC"]), .key ⟨"desc", .ascending⟩]

/-- The first seven in that order, compared loosely. -/
def looselyFirstSeven : Options :=
  { orderBy := [⟨"asc", .descending⟩, ⟨"desc", .ascending⟩]
    limit := some 7
    customComparator := some (.function "close") }

end Winnow.Options
