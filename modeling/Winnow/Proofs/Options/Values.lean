import Winnow.Proofs.Expression.Depth
import Winnow.Proofs.Memo.Key
import Winnow.Proofs.Order.SortKeys
/-! # Values of options

`Takes` says what an option makes of a value that a mapping gives it: an order is normalised, other values stay as
they are, and what is no value for the option is not taken. What an option has come to it takes again; valid options
are those that take the values that they have. -/

namespace Winnow

open Outcome

namespace Options

variable {o : Options} {name : OptionName} {v w : Value}

/-! ## What options have and take -/

def limitValue (limit : Option Nat) : Value := (limit.map fun (n : Nat) => Value.int n).getD .null

def comparatorValue (comparator : Option Callable) : Value := (comparator.map Value.callable).getD .null

def orderValue (keys : List SortKey) : Value := .list (keys.map (·.toValue))

/-- The value of an option, as a mapping may give it. -/
def setting (o : Options) : OptionName → Value
  | .caseSensitive => .bool o.caseSensitive
  | .maxDepth => .int o.maxDepth
  | .enableCache => .bool o.enableCache
  | .orderBy => orderValue o.orderBy
  | .limit => limitValue o.limit
  | .customComparator => comparatorValue o.customComparator
  | .debug => .bool o.debug
  | .verbose => .bool o.verbose
  | .showTimings => .bool o.showTimings
  | .colorize => .bool o.colorize
  | .enablePerformanceMonitoring => .bool o.enablePerformanceMonitoring

/-- What an option comes to when it is given a value: an order is normalised, other values stay. -/
inductive Takes : OptionName → Value → Value → Prop
  | flag {name : OptionName} (hname : name ∉ [.maxDepth, .orderBy, .limit, .customComparator]) (b : Bool) :
    Takes name (.bool b) (.bool b)
  | maxDepth {n : Nat} (hleast : 1 ≤ n) (hmost : n ≤ 10) : Takes .maxDepth (.int n) (.int n)
  | noLimit : Takes .limit .null .null
  | limit {n : Nat} (hleast : 1 ≤ n) (hmost : n ≤ maxLimit) : Takes .limit (.int n) (.int n)
  | noComparator : Takes .customComparator .null .null
  | comparator (c : Callable) : Takes .customComparator (.callable c) (.callable c)
  | noOrder {v : Value} (hv : v.truth = false) : Takes .orderBy v (orderValue [])
  | order {v : Value} {keys : List SortKey} (hv : v.truth = true) (hkeys : SortKey.readAll v = .ok keys) :
    Takes .orderBy v (orderValue keys)

/-- What an option is read as. -/
def readSetting (name : OptionName) (v : Value) : Outcome Value :=
  match name with
  | .maxDepth => (readMaxDepth v).map fun (n : Nat) => .int n
  | .orderBy => (readOrder v).map orderValue
  | .limit => (readLimit v).map limitValue
  | .customComparator => (readComparator v).map comparatorValue
  | name => (readFlag name v).map .bool

theorem readFlag_eq_ok {b : Bool} : readFlag name v = .ok b ↔ v = .bool b := by
  cases v with
  | bool b' => simp [readFlag]
  | _ => exact iff_of_false nofun nofun

theorem readLimit_eq_ok {limit : Option Nat} : readLimit v = .ok limit ↔
    v = limitValue limit ∧ ∀ n, limit = some n → 1 ≤ n ∧ n ≤ maxLimit := by
  have hnull (n : Nat) : limitValue (some n) = .int n := rfl
  cases v with
  | null => cases limit <;> simp [readLimit, checkCount, limitValue]
  | int i =>
    simp only [readLimit, checkCount]
    cases limit with
    | none =>
      refine iff_of_false ?_ nofun
      split_ifs <;> nofun
    | some n =>
      rw [hnull, Value.int.injEq, maxLimit]
      simp only [Option.some.injEq, forall_eq']
      split_ifs
      · exact iff_of_false nofun (by omega)
      · exact iff_of_false nofun (by omega)
      · rw [Except.ok.injEq, Option.some.injEq]
        omega
  | _ => cases limit <;> exact iff_of_false nofun nofun

theorem readComparator_eq_ok {c : Option Callable} : readComparator v = .ok c ↔ v = comparatorValue c := by
  cases v with
  | null => cases c <;> simp [readComparator, comparatorValue]
  | callable c' => cases c <;> simp [readComparator, comparatorValue]
  | _ => cases c <;> exact iff_of_false nofun nofun

theorem readSetting_eq_ok : readSetting name v = .ok w ↔ Takes name v w := by
  have hflag (hname : name ∉ [.maxDepth, .orderBy, .limit, .customComparator]) :
      (readFlag name v).map .bool = .ok w ↔ Takes name v w := by
    simp only [map_eq_ok, readFlag_eq_ok]
    constructor
    · rintro ⟨b, rfl, rfl⟩
      exact .flag hname b
    · intro h
      cases h with
      | flag _ b => exact ⟨b, rfl, rfl⟩
      | _ => simp at hname
  cases name with
  | maxDepth =>
    simp only [readSetting, map_eq_ok, readMaxDepth_eq_ok]
    constructor
    · rintro ⟨n, ⟨rfl, hleast, hmost⟩, rfl⟩
      exact .maxDepth hleast hmost
    · intro h
      cases h with
      | flag hname => simp at hname
      | maxDepth hleast hmost => exact ⟨_, ⟨rfl, hleast, hmost⟩, rfl⟩
  | orderBy =>
    simp only [readSetting, map_eq_ok, readOrder]
    constructor
    · rintro ⟨keys, hkeys, rfl⟩
      split at hkeys
      · next hv => exact .order hv hkeys
      · next hv =>
        obtain rfl := Except.ok.inj hkeys
        exact .noOrder (Bool.eq_false_iff.2 hv)
    · intro h
      cases h with
      | flag hname => simp at hname
      | noOrder hv => exact ⟨[], by rw [hv, if_neg Bool.false_ne_true], rfl⟩
      | order hv hkeys => exact ⟨_, by rw [hv, if_pos rfl, hkeys], rfl⟩
  | limit =>
    simp only [readSetting, map_eq_ok, readLimit_eq_ok]
    constructor
    · rintro ⟨_ | n, ⟨rfl, hn⟩, rfl⟩
      · exact .noLimit
      · exact .limit (hn n rfl).1 (hn n rfl).2
    · intro h
      cases h with
      | flag hname => simp at hname
      | noLimit => exact ⟨none, ⟨rfl, nofun⟩, rfl⟩
      | limit hleast hmost => exact ⟨some _, ⟨rfl, fun _ hn => Option.some.inj hn ▸ ⟨hleast, hmost⟩⟩, rfl⟩
  | customComparator =>
    simp only [readSetting, map_eq_ok, readComparator_eq_ok]
    constructor
    · rintro ⟨_ | c, rfl, rfl⟩
      · exact .noComparator
      · exact .comparator c
    · intro h
      cases h with
      | flag hname => simp at hname
      | noComparator => exact ⟨none, rfl, rfl⟩
      | comparator c => exact ⟨some c, rfl, rfl⟩
  | _ => exact hflag (by decide)

/-- What an option comes to it takes again. -/
theorem Takes.again (h : Takes name v w) : Takes name w w := by
  cases h with
  | flag hname b => exact .flag hname b
  | maxDepth hleast hmost => exact .maxDepth hleast hmost
  | noLimit => exact .noLimit
  | limit hleast hmost => exact .limit hleast hmost
  | noComparator => exact .noComparator
  | comparator c => exact .comparator c
  | noOrder => exact .noOrder rfl
  | order hv hkeys =>
    have hnull : v.isNull = false := by cases v <;> first | rfl | cases hv
    obtain ⟨hne, hfields⟩ := SortKey.readAll_spec hnull hkeys
    refine .order ?_ (SortKey.readAll_toValue hne hfields)
    simpa [orderValue, Value.truth] using hne

theorem failsAs_readSetting : FailsAs Failure.IsOfOptions (readSetting name v) := by
  have hflag (name : OptionName) : FailsAs Failure.IsOfOptions (readFlag name v) := by
    cases v <;> first | exact failsAs_ok _ | exact failsAs_options _ _ _
  cases name with
  | maxDepth =>
    refine failsAs_map.2 ?_
    unfold readMaxDepth
    split
    · split_ifs
      · exact failsAs_options _ _ _
      · exact failsAs_ok _
    · exact failsAs_options _ _ _
  | orderBy =>
    refine failsAs_map.2 ?_
    unfold readOrder
    split
    · exact SortKey.failsAs_readAll
    · exact failsAs_ok _
  | limit =>
    refine failsAs_map.2 ?_
    unfold readLimit checkCount
    split
    · exact failsAs_ok _
    · split_ifs
      · exact failsAs_options _ _ _
      · exact failsAs_options _ _ _
      · exact failsAs_ok _
    · exact failsAs_options _ _ _
  | customComparator =>
    refine failsAs_map.2 ?_
    unfold readComparator
    split
    · exact failsAs_ok _
    · exact failsAs_ok _
    · exact failsAs_options _ _ _
  | _ => exact failsAs_map.2 (hflag _)

/-! ## Valid options -/

/-- Are the depth and limit in their bounds, and do sort keys have fields? -/
structure IsValid (o : Options) : Prop where
  maxDepth : 1 ≤ o.maxDepth ∧ o.maxDepth ≤ 10
  limit : ∀ n, o.limit = some n → 1 ≤ n ∧ n ≤ maxLimit
  fields : ∀ k ∈ o.orderBy, k.field ≠ ""

theorem isValid_iff : o.IsValid ↔ ∀ name, Takes name (o.setting name) (o.setting name) := by
  constructor
  · intro h name
    cases name with
    | maxDepth => exact .maxDepth h.maxDepth.1 h.maxDepth.2
    | orderBy =>
      rw [setting]
      rcases horder : o.orderBy with _ | ⟨k, ks⟩
      · exact .noOrder rfl
      · exact .order rfl (SortKey.readAll_toValue (List.cons_ne_nil k ks) (horder ▸ h.fields))
    | limit =>
      rw [setting]
      rcases hlimit : o.limit with _ | n
      · exact .noLimit
      · exact .limit (h.limit n hlimit).1 (h.limit n hlimit).2
    | customComparator =>
      rw [setting]
      rcases o.customComparator with _ | c
      · exact .noComparator
      · exact .comparator c
    | _ => exact .flag (by decide) _
  · intro h
    have hread (name : OptionName) : readSetting name (o.setting name) = .ok (o.setting name) :=
      readSetting_eq_ok.2 (h name)
    constructor
    case maxDepth =>
      obtain ⟨n, hn, -⟩ := map_eq_ok.1 (hread .maxDepth)
      obtain ⟨heq, hbounds⟩ := readMaxDepth_eq_ok.1 hn
      rwa [Int.ofNat_inj.1 (Value.int.inj heq)]
    case limit =>
      intro n hlimit
      obtain ⟨limit, hn, -⟩ := map_eq_ok.1 (hread .limit)
      obtain ⟨heq, hbounds⟩ := readLimit_eq_ok.1 hn
      obtain rfl := limitValue_inj (congrArg Canonical.ofValue heq)
      exact hbounds n hlimit
    case fields =>
      rcases horder : o.orderBy with _ | ⟨k, ks⟩
      · exact List.forall_mem_nil _
      have hkeys := hread .orderBy
      rw [setting, horder] at hkeys
      obtain ⟨keys, hkeys, heq⟩ := map_eq_ok.1 hkeys
      rw [readOrder, if_pos (show (orderValue (k :: ks)).truth = true from rfl)] at hkeys
      have hsame : keys = k :: ks := List.map_injective_iff.2
        (fun _ _ hk => SortKey.toValue_inj (congrArg Canonical.ofValue hk)) (Value.list.inj heq)
      exact hsame ▸ (SortKey.readAll_spec rfl hkeys).2

end Options
end Winnow
