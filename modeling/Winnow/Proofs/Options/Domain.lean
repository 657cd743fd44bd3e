import Winnow.Proofs.Options.Layers
import Winnow.Proofs.Order.Written
/-! # Which options are accepted

Every option has a domain: flags, depths and limits in their bounds, functions, orders as they are written. A mapping
that names each option once is refused where a value is outside its domain, with a failure of options; but an order
that counts as false is accepted as none, whatever it is. -/

namespace Winnow.Options

open Outcome

variable {entries : List (Value × Value)} {name : OptionName} {v : Value} {o : Options}

/-- Is the value in the domain of the option? -/
inductive InDomain : OptionName → Value → Prop
  | flag {name : OptionName} (hname : name ∉ [.maxDepth, .orderBy, .limit, .customComparator]) (b : Bool) :
    InDomain name (.bool b)
  | maxDepth {n : Int} (hleast : 1 ≤ n) (hmost : n ≤ 10) : InDomain .maxDepth (.int n)
  | noLimit : InDomain .limit .null
  | limit {n : Int} (hleast : 1 ≤ n) (hmost : n ≤ 10000000) : InDomain .limit (.int n)
  | noComparator : InDomain .customComparator .null
  | comparator (c : Callable) : InDomain .customComparator (.callable c)
  | emptyOrder {v : Value} (hv : v.items? = some []) : InDomain .orderBy v
  | order {v : Value} {keys : List SortKey} (hv : SortKey.WritesAll v keys) : InDomain .orderBy v

/-- An order is in its domain when it is none, an empty list or tuple, or can be normalised. -/
theorem inDomain_orderBy_iff : InDomain .orderBy v ↔
    v = .null ∨ v.items? = some [] ∨ ∃ keys, SortKey.readAll v = .ok keys := by
  simp only [SortKey.readAll_eq_ok]
  constructor
  · intro h
    cases h with
    | flag hname => simp at hname
    | emptyOrder hv => exact .inr (.inl hv)
    | order hv => exact .inr (.inr ⟨_, hv⟩)
  · rintro (rfl | hv | ⟨keys, hv⟩)
    · exact .order .none
    · exact .emptyOrder hv
    · exact .order hv

/-- An option takes what is in its domain, and the order takes what counts as false too. -/
theorem exists_takes_iff : (∃ w, Takes name v w) ↔ InDomain name v ∨ name = .orderBy ∧ v.truth = false := by
  constructor
  · rintro ⟨w, h⟩
    cases h with
    | flag hname b => exact .inl (.flag hname b)
    | maxDepth hleast hmost => exact .inl (.maxDepth (by omega) (by omega))
    | noLimit => exact .inl .noLimit
    | limit hleast hmost => exact .inl (.limit (by omega) hmost)
    | noComparator => exact .inl .noComparator
    | comparator c => exact .inl (.comparator c)
    | noOrder hv => exact .inr ⟨rfl, hv⟩
    | order _ hkeys => exact .inl (.order (SortKey.readAll_eq_ok.1 hkeys))
  · have horder {v : Value} {keys : List SortKey} (hv : SortKey.WritesAll v keys) : ∃ w, Takes .orderBy v w := by
      rcases htruth : v.truth with _ | _
      · exact ⟨_, .noOrder htruth⟩
      · exact ⟨_, .order htruth (SortKey.readAll_eq_ok.2 hv)⟩
    rintro (h | ⟨rfl, hv⟩)
    · cases h with
      | flag hname b => exact ⟨_, .flag hname b⟩
      | @maxDepth n hleast hmost =>
        lift n to Nat using by omega
        exact ⟨_, .maxDepth (by omega) (by omega)⟩
      | noLimit => exact ⟨_, .noLimit⟩
      | @limit n hleast hmost =>
        lift n to Nat using by omega
        exact ⟨_, .limit (by omega) hmost⟩
      | noComparator => exact ⟨_, .noComparator⟩
      | comparator c => exact ⟨_, .comparator c⟩
      | emptyOrder hv =>
        refine ⟨_, .noOrder ?_⟩
        cases v with
        | list | tuple =>
          obtain rfl := Option.some.inj hv
          rfl
        | _ => cases hv
      | order hv => exact horder hv
    · exact ⟨_, .noOrder hv⟩

/-! ## What is accepted -/

/-- Where all names are known, a mapping is accepted when every option takes its value. -/
theorem exists_ofValue_iff (hentries : NamesOnce entries) (hknown : ¬NamesUnknown entries) :
    (∃ o, ofValue (.object entries) = .ok o) ↔
      ∀ name v, Names entries name v → InDomain name v ∨ name = .orderBy ∧ v.truth = false := by
  have hfails : (∃ f, ofValue (.object entries) = .error f) ↔ NamesRefused entries :=
    (withEntries_fails_iff hentries).trans (or_iff_right hknown)
  have haccepted : (∃ o, ofValue (.object entries) = .ok o) ↔ ¬NamesRefused entries := by
    rw [← hfails]
    cases ofValue (.object entries) <;> simp
  simp only [haccepted, NamesRefused, not_exists, not_and, not_forall, not_not, exists_takes_iff]

/-- An option that is named once has one value. -/
theorem Names.unique (hentries : NamesOnce entries) (hknown : ¬NamesUnknown entries) {w : Value}
    (hv : Names entries name v) (hw : Names entries name w) : v = w := by
  obtain ⟨layer, hlayer⟩ := exists_readLayer_iff.2 hknown
  have hget := (get?_layer_iff hentries hlayer).2 hv
  exact Option.some.inj (hget.symm.trans ((get?_layer_iff hentries hlayer).2 hw))

/-- An order that counts as false comes to none. -/
theorem orderBy_of_untrue (hentries : NamesOnce entries) (h : ofValue (.object entries) = .ok o)
    (hv : Names entries .orderBy v) (htruth : v.truth = false) : o.orderBy = [] := by
  have htakes := (setting_withEntries hentries h).1 .orderBy v hv
  have hnone : readSetting .orderBy v = .ok (orderValue []) := readSetting_eq_ok.2 (.noOrder htruth)
  have hsetting := Except.ok.inj (hnone.symm.trans (readSetting_eq_ok.2 htakes))
  exact List.map_eq_nil_iff.1 (Value.list.inj hsetting).symm

/-- The first seven, by one field downwards. -/
def firstSeven : List (Value × Value) :=
  [(.text "limit", .int 7), (.text "orderBy", .tuple [.text "price", .text "DESC"])]

end Winnow.Options
