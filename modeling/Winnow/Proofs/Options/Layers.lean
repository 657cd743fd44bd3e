import Winnow.Proofs.Options.Values
import Winnow.Proofs.Options.Entries
/-! # Layers of options

The options of a call come of three layers: defaults, a mapping and overrides. An option has the value of the
uppermost layer that names it, in either spelling. Each layer is laid over options by its entries: those that it
names take its values, the others are kept, and it fails just when a name is unknown or a value is not taken. So a
layer over valid options leaves valid options, over which the next one is laid. -/

namespace Winnow.Options

open Outcome

variable {base o : Options} {layer : Layer} {name : OptionName} {entries given overrides : List (Value × Value)}
  {α : Type}

/-! ## Option by option -/

/-- The value of an option with a layer over options. -/
def settle (base : Options) (layer : Layer) (name : OptionName) : Outcome Value :=
  layered layer name (readSetting name) (base.setting name)

theorem layered_map {read : Value → Outcome α} {below : α} (g : α → Value) :
    layered layer name (fun v => (read v).map g) (g below) = (layered layer name read below).map g := by
  unfold layered
  cases layer.get? name <;> rfl

theorem settle_of_withLayer (h : base.withLayer layer = .ok o) (name : OptionName) :
    base.settle layer name = .ok (o.setting name) := by
  simp only [withLayer, bind_eq_ok, pure_eq, Except.ok.injEq] at h
  obtain ⟨_, hcase, _, hcache, _, hdebug, _, hverbose, _, htimings, _, hcolorize, _, hmonitoring, _, hdepth, _, hlimit,
    _, hcomparator, _, horder, rfl⟩ := h
  cases name with
  | caseSensitive => exact (layered_map .bool).trans (congrArg _ hcase)
  | maxDepth => exact (layered_map _).trans (congrArg _ hdepth)
  | enableCache => exact (layered_map .bool).trans (congrArg _ hcache)
  | orderBy => exact (layered_map _).trans (congrArg _ horder)
  | limit => exact (layered_map _).trans (congrArg _ hlimit)
  | customComparator => exact (layered_map _).trans (congrArg _ hcomparator)
  | debug => exact (layered_map .bool).trans (congrArg _ hdebug)
  | verbose => exact (layered_map .bool).trans (congrArg _ hverbose)
  | showTimings => exact (layered_map .bool).trans (congrArg _ htimings)
  | colorize => exact (layered_map .bool).trans (congrArg _ hcolorize)
  | enablePerformanceMonitoring => exact (layered_map .bool).trans (congrArg _ hmonitoring)

theorem failsAs_withLayer : FailsAs (fun f => ∃ name, base.settle layer name = .error f) (base.withLayer layer) := by
  have hpart {α : Type} (name : OptionName) (read : Value → Outcome α) (below : α) (g : α → Value)
      (h : base.settle layer name = (layered layer name read below).map g) :
      FailsAs (fun f => ∃ name, base.settle layer name = .error f) (layered layer name read below) :=
    fun f hf => ⟨name, by rw [h, hf, map_error]⟩
  unfold withLayer
  iterate 11 refine failsAs_bind.2 ⟨hpart _ _ _ _ (layered_map _), fun _ _ => ?_⟩
  exact failsAs_ok _

/-! ## One layer -/

/-- Is there an option that does not take the value with which it is named? -/
def NamesRefused (entries : List (Value × Value)) : Prop := ∃ name v, Names entries name v ∧ ∀ w, ¬Takes name v w

theorem namesRefused_plainFirst : NamesRefused (plainFirst entries) ↔ NamesRefused entries := by
  simp only [NamesRefused, names_plainFirst]

/-- The options with entries over them, as they stand. -/
def withEntries (base : Options) (entries : List (Value × Value)) : Outcome Options := do
  base.withLayer (← readLayer entries)

/-- What comes of one layer: an option that it names takes the value, the others are as below. -/
theorem setting_withEntries (hentries : NamesOnce entries) (h : base.withEntries entries = .ok o) :
    (∀ name v, Names entries name v → Takes name v (o.setting name)) ∧
    ∀ name, (∀ v, ¬Names entries name v) → o.setting name = base.setting name := by
  obtain ⟨layer, hlayer, h⟩ := bind_eq_ok.1 h
  have hsettle := settle_of_withLayer h
  refine ⟨fun name v hv => ?_, fun name hnone => ?_⟩
  · have hget : layer.get? name = some v := (get?_layer_iff hentries hlayer).2 hv
    have hname := hsettle name
    rw [settle, layered, hget] at hname
    exact readSetting_eq_ok.1 hname
  · have hget : layer.get? name = none := by
      rw [Option.eq_none_iff_forall_ne_some]
      exact fun v hv => hnone v ((get?_layer_iff hentries hlayer).1 hv)
    have hname := hsettle name
    rw [settle, layered, hget] at hname
    exact (Except.ok.inj hname).symm

theorem withEntries_fails_iff (hentries : NamesOnce entries) :
    (∃ f, base.withEntries entries = .error f) ↔ NamesUnknown entries ∨ NamesRefused entries := by
  constructor
  · rintro ⟨f, hf⟩
    rcases bind_eq_error.1 hf with hlayer | ⟨layer, hlayer, hf⟩
    · left
      by_contra hknown
      obtain ⟨layer, hok⟩ := exists_readLayer_iff.2 hknown
      cases hok.symm.trans hlayer
    · right
      obtain ⟨name, hname⟩ := failsAs_withLayer f hf
      rw [settle, layered] at hname
      split at hname
      · next v hget =>
        refine ⟨name, v, (get?_layer_iff hentries hlayer).1 hget, fun w hw => ?_⟩
        cases (readSetting_eq_ok.2 hw).symm.trans hname
      · cases hname
  · intro h
    rcases ho : base.withEntries entries with f | o
    · exact ⟨f, rfl⟩
    · rcases h with hunknown | ⟨name, v, hv, hrefused⟩
      · obtain ⟨layer, hlayer, -⟩ := bind_eq_ok.1 ho
        exact absurd hunknown (exists_readLayer_iff.1 ⟨layer, hlayer⟩)
      · exact absurd ((setting_withEntries hentries ho).1 name v hv) (hrefused _)

theorem failsAs_withEntries : FailsAs Failure.IsOfOptions (base.withEntries entries) := by
  refine failsAs_bind.2 ⟨failsAs_readLayer, fun layer _ f hf => ?_⟩
  obtain ⟨name, hname⟩ := failsAs_withLayer f hf
  rw [settle, layered] at hname
  split at hname
  · exact failsAs_readSetting f hname
  · cases hname

/-! ## One layer, plain names first -/

theorem overEntries_eq : base.overEntries entries = base.withEntries (plainFirst entries) := rfl

theorem setting_overEntries (hentries : NamesOnce entries) (h : base.overEntries entries = .ok o) :
    (∀ name v, Names entries name v → Takes name v (o.setting name)) ∧
    ∀ name, (∀ v, ¬Names entries name v) → o.setting name = base.setting name := by
  simpa only [names_plainFirst] using setting_withEntries hentries.plainFirst (overEntries_eq ▸ h)

theorem overEntries_fails_iff (hentries : NamesOnce entries) :
    (∃ f, base.overEntries entries = .error f) ↔ NamesUnknown entries ∨ NamesRefused entries := by
  rw [overEntries_eq, withEntries_fails_iff hentries.plainFirst, namesUnknown_plainFirst, namesRefused_plainFirst]

theorem failsAs_overEntries : FailsAs Failure.IsOfOptions (base.overEntries entries) := failsAs_withEntries

theorem IsValid.overEntries (hbase : base.IsValid) (hentries : NamesOnce entries)
    (h : base.overEntries entries = .ok o) : o.IsValid := by
  obtain ⟨htaken, hkept⟩ := setting_overEntries hentries h
  refine isValid_iff.2 fun name => ?_
  by_cases hnamed : ∃ v, Names entries name v
  · obtain ⟨v, hv⟩ := hnamed
    exact (htaken name v hv).again
  · rw [hkept name (not_exists.1 hnamed)]
    exact isValid_iff.1 hbase name

/-! ## All layers -/

/-- The values of options with entries over others: the value with which an option is named, or the one below. -/
def Over (entries : List (Value × Value)) (below : OptionName → Value → Prop) (name : OptionName) (v : Value) : Prop :=
  Names entries name v ∨ (∀ u, ¬Names entries name u) ∧ below name v

/-- The values that options have. -/
def Has (o : Options) (name : OptionName) (v : Value) : Prop := o.setting name = v

/-- Is there an option that does not take the value which it has in layers? -/
def IsInvalid (layers : OptionName → Value → Prop) : Prop := ∃ name v, layers name v ∧ ∀ w, ¬Takes name v w

/-- Over values that are taken, layers are invalid where the upper one is. -/
theorem isInvalid_over_iff {below : OptionName → Value → Prop} (hbelow : ¬IsInvalid below) :
    IsInvalid (Over entries below) ↔ NamesRefused entries := by
  constructor
  · rintro ⟨name, v, hv | ⟨-, hv⟩, hrefused⟩
    · exact ⟨name, v, hv, hrefused⟩
    · exact absurd ⟨name, v, hv, hrefused⟩ hbelow
  · rintro ⟨name, v, hv, hrefused⟩
    exact ⟨name, v, .inl hv, hrefused⟩

theorem IsValid.not_isInvalid (h : o.IsValid) : ¬IsInvalid o.Has := by
  rintro ⟨name, v, rfl, hrefused⟩
  exact hrefused _ (isValid_iff.1 h name)

/-- Do options come of the layers as they should: from the overrides, else from what is given, else from the base,
and is there no failure but for unknown names and layers that are invalid? -/
structure ComesOf (base : Options) (given overrides : List (Value × Value)) (x : Outcome Options) : Prop where
  overridden {o : Options} (h : x = .ok o) {name : OptionName} {v : Value} (hv : Names overrides name v) :
    Takes name v (o.setting name)
  named {o : Options} (h : x = .ok o) {name : OptionName} (hnot : ∀ u, ¬Names overrides name u) {v : Value}
    (hv : Names given name v) : Takes name v (o.setting name)
  kept {o : Options} (h : x = .ok o) {name : OptionName} (hnot : ∀ u, ¬Names overrides name u)
    (hnot' : ∀ u, ¬Names given name u) : o.setting name = base.setting name
  valid {o : Options} (h : x = .ok o) : o.IsValid
  fails_iff : (∃ f, x = .error f) ↔ NamesUnknown given ∨ NamesUnknown overrides ∨
    IsInvalid (Over given base.Has) ∨ IsInvalid (Over overrides (Over given base.Has))
  failsAs : FailsAs Failure.IsOfOptions x

theorem comesOf_layers (hbase : base.IsValid) (hgiven : NamesOnce given) (hoverrides : NamesOnce overrides) :
    ComesOf base given overrides (base.overEntries given >>= (·.overEntries overrides)) where
  overridden h := by
    obtain ⟨_, -, h⟩ := bind_eq_ok.1 h
    exact (setting_overEntries hoverrides h).1 _ _
  named h _ hnot _ hv := by
    obtain ⟨r, hr, h⟩ := bind_eq_ok.1 h
    rw [(setting_overEntries hoverrides h).2 _ hnot]
    exact (setting_overEntries hgiven hr).1 _ _ hv
  kept h _ hnot hnot' := by
    obtain ⟨r, hr, h⟩ := bind_eq_ok.1 h
    rw [(setting_overEntries hoverrides h).2 _ hnot, (setting_overEntries hgiven hr).2 _ hnot']
  valid h := by
    obtain ⟨r, hr, h⟩ := bind_eq_ok.1 h
    exact (hbase.overEntries hgiven hr).overEntries hoverrides h
  fails_iff := by
    have hlower : IsInvalid (Over given base.Has) ↔ NamesRefused given := isInvalid_over_iff hbase.not_isInvalid
    have hfails : (∃ f, base.overEntries given = .error f) ↔ NamesUnknown given ∨ NamesRefused given :=
      overEntries_fails_iff hgiven
    by_cases hrefused : NamesRefused given
    · obtain ⟨f, hf⟩ := hfails.2 (.inr hrefused)
      exact iff_of_true ⟨f, by rw [hf, error_bind]⟩ (.inr (.inr (.inl (hlower.2 hrefused))))
    have hupper : IsInvalid (Over overrides (Over given base.Has)) ↔ NamesRefused overrides :=
      isInvalid_over_iff (mt hlower.1 hrefused)
    rw [hlower, hupper]
    rcases hr : base.overEntries given with f | r
    · exact iff_of_true ⟨f, rfl⟩ (.inl ((hfails.1 ⟨f, hr⟩).resolve_right hrefused))
    · have hknown : ¬NamesUnknown given := by
        intro hunknown
        obtain ⟨f, hf⟩ := hfails.2 (.inl hunknown)
        cases hr.symm.trans hf
      rw [ok_bind, overEntries_fails_iff hoverrides, or_iff_right hknown, or_iff_right hrefused]
  failsAs := failsAs_bind.2 ⟨failsAs_overEntries, fun _ _ => failsAs_overEntries⟩

/-- Options with a limit, an order and a flag. -/
def firstFive : Options := { limit := some 5, orderBy := [⟨"a", .ascending⟩], colorize := true }

end Winnow.Options
