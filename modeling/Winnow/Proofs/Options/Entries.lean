import Mathlib.Data.List.Nodup
import Winnow.Options
import Winnow.Proofs.Order.SortKeys
/-! # Entries that name options

An entry names an option by its key, in one spelling or the other, and it can be read just when it names one. What
counts for an option is the last entry that names it, names in mixed case being behind; where no option is named
twice, every entry counts. -/

namespace Winnow.Options

open Outcome

variable {layer : Layer} {name : OptionName} {v : Value} {entries : List (Value × Value)}

/-! ## Names -/

/-- Is the key a name of the option, in one spelling or the other? -/
def Spells (key : Value) (name : OptionName) : Prop := key = .text name.plain ∨ key = .text name.mixedCase

/-- Do the entries name the option, with the value? -/
def Names (entries : List (Value × Value)) (name : OptionName) (v : Value) : Prop :=
  ∃ key, (key, v) ∈ entries ∧ Spells key name

theorem not_names_nil : ¬Names [] name v := fun ⟨_, h, _⟩ => List.not_mem_nil h

theorem names_cons {e : Value × Value} : Names (e :: entries) name v ↔
    Spells e.1 name ∧ e.2 = v ∨ Names entries name v := by
  constructor
  · rintro ⟨key, h, hspells⟩
    rcases List.mem_cons.1 h with rfl | h
    · exact .inl ⟨hspells, rfl⟩
    · exact .inr ⟨key, h, hspells⟩
  · rintro (⟨hspells, rfl⟩ | ⟨key, h, hspells⟩)
    · exact ⟨e.1, List.mem_cons_self, hspells⟩
    · exact ⟨key, List.mem_cons_of_mem _ h, hspells⟩

/-- Is no option named twice, in whatever spellings? -/
def NamesOnce (entries : List (Value × Value)) : Prop :=
  entries.Pairwise fun e e' => ∀ name, ¬(Spells e.1 name ∧ Spells e'.1 name)

/-- Is there a key that is the name of no option? -/
def NamesUnknown (entries : List (Value × Value)) : Prop := ∃ e ∈ entries, ∀ name, ¬Spells e.1 name

/-! ## What a layer reads -/

def readEntry (e : Value × Value) : Outcome (OptionName × Value) :=
  match e.1 with
  | .text s =>
    match OptionName.ofName? s with
    | some name => .ok (name, e.2)
    | none => .error (.options (.unknown e.1) e.1 e.2)
  | _ => .error (.options (.unknown e.1) e.1 e.2)

theorem readLayer_eq : readLayer entries = entries.mapM readEntry := by
  refine congrArg (List.mapM · entries) (funext fun ⟨k, v⟩ => ?_)
  cases k <;> rfl

theorem ofName?_eq_some {s : String} : OptionName.ofName? s = some name ↔ s = name.plain ∨ s = name.mixedCase := by
  constructor
  · intro h
    have hnames := List.find?_some h
    rw [Bool.or_eq_true, beq_iff_eq, beq_iff_eq] at hnames
    exact hnames.imp Eq.symm Eq.symm
  · rintro (rfl | rfl) <;> cases name <;> decide +kernel

theorem spells_text_iff {s : String} : Spells (.text s) name ↔ OptionName.ofName? s = some name := by
  rw [Spells, Value.text.injEq, Value.text.injEq, ofName?_eq_some]

theorem readEntry_eq_ok {e : Value × Value} {l : OptionName × Value} :
    readEntry e = .ok l ↔ Spells e.1 l.1 ∧ e.2 = l.2 := by
  obtain ⟨k, v⟩ := e
  obtain ⟨name, w⟩ := l
  cases k with
  | text s =>
    simp only [readEntry, spells_text_iff]
    rcases OptionName.ofName? s with _ | name' <;> simp
  | _ => exact iff_of_false nofun (by simp [Spells])

theorem failsAs_readLayer : FailsAs Failure.IsOfOptions (readLayer entries) := by
  rw [readLayer_eq]
  refine failsAs_mapM fun e _ => ?_
  unfold readEntry
  split
  · split
    · exact failsAs_ok _
    · exact failsAs_options _ _ _
  · exact failsAs_options _ _ _

/-- The entries can be read just when all names are known. -/
theorem exists_readLayer_iff : (∃ layer, readLayer entries = .ok layer) ↔ ¬NamesUnknown entries := by
  rw [readLayer_eq, exists_mapM_eq_ok]
  simp only [readEntry_eq_ok, NamesUnknown, not_exists, not_and, not_forall, not_not]
  refine forall₂_congr fun e _ => ?_
  constructor
  · rintro ⟨l, hl, -⟩
    exact ⟨l.1, hl⟩
  · rintro ⟨name, hname⟩
    exact ⟨(name, e.2), hname, rfl⟩

theorem mem_layer_iff (h : readLayer entries = .ok layer) : (name, v) ∈ layer ↔ Names entries name v := by
  rw [readLayer_eq, mapM_eq_ok] at h
  have hpaired := Paired.of_forall₂ h
  constructor
  · intro hmem
    obtain ⟨e, he, hread⟩ := hpaired.2 _ hmem
    obtain ⟨hspells, rfl⟩ := readEntry_eq_ok.1 hread
    exact ⟨e.1, he, hspells⟩
  · rintro ⟨key, hkey, hspells⟩
    obtain ⟨⟨name', v'⟩, hmem, hread⟩ := hpaired.1 _ hkey
    rw [readEntry_eq_ok.2 (show Spells (key, v).1 (name, v).1 ∧ _ from ⟨hspells, rfl⟩)] at hread
    rwa [Except.ok.inj hread]

theorem nodup_layer (hentries : NamesOnce entries) (h : entries.mapM readEntry = .ok layer) :
    (layer.map (·.1)).Nodup := by
  rw [mapM_eq_ok] at h
  induction h with
  | nil => exact .nil
  | @cons e l entries layer hread hrest ih =>
    obtain ⟨hfirst, hentries⟩ := List.pairwise_cons.1 hentries
    rw [List.map_cons, List.nodup_cons]
    refine ⟨fun hmem => ?_, ih hentries⟩
    obtain ⟨l', hl', hname⟩ := List.mem_map.1 hmem
    obtain ⟨e', he', hread'⟩ := (Paired.of_forall₂ hrest).2 l' hl'
    exact hfirst e' he' l.1 ⟨(readEntry_eq_ok.1 hread).1, hname ▸ (readEntry_eq_ok.1 hread').1⟩

theorem Layer.get?_eq_some (h : (layer.map (·.1)).Nodup) : layer.get? name = some v ↔ (name, v) ∈ layer := by
  rw [Layer.get?, Option.map_eq_some_iff]
  constructor
  · rintro ⟨e, he, rfl⟩
    obtain rfl : e.1 = name := by simpa using List.find?_some he
    exact List.mem_reverse.1 (List.mem_of_find?_eq_some he)
  · intro hmem
    rcases hfind : layer.reverse.find? fun e => e.1 = name with _ | e
    · simpa using List.find?_eq_none.1 hfind _ (List.mem_reverse.2 hmem)
    · have hname : e.1 = name := by simpa using List.find?_some hfind
      have he := List.mem_reverse.1 (List.mem_of_find?_eq_some hfind)
      exact ⟨e, hfind, congrArg Prod.snd (List.inj_on_of_nodup_map h he hmem hname)⟩

/-- What counts for an option is the value with which it is named. -/
theorem get?_layer_iff (hentries : NamesOnce entries) (h : readLayer entries = .ok layer) :
    layer.get? name = some v ↔ Names entries name v :=
  (Layer.get?_eq_some (nodup_layer hentries (readLayer_eq ▸ h))).trans (mem_layer_iff h)

/-! ## Entries in order -/

theorem mem_plainFirst {e : Value × Value} : e ∈ plainFirst entries ↔ e ∈ entries :=
  (List.filter_append_perm _ entries).mem_iff

theorem names_plainFirst : Names (plainFirst entries) name v ↔ Names entries name v := by
  simp only [Names, mem_plainFirst]

theorem namesUnknown_plainFirst : NamesUnknown (plainFirst entries) ↔ NamesUnknown entries := by
  simp only [NamesUnknown, mem_plainFirst]

theorem NamesOnce.plainFirst (h : NamesOnce entries) : NamesOnce (plainFirst entries) :=
  (List.filter_append_perm _ entries).pairwise_iff (fun h name hboth => h name hboth.symm) |>.2 h

end Winnow.Options
