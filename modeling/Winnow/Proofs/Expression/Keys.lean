import Winnow.Proofs.Expression.Entries
import Winnow.Proofs.Transport.Sameness
/-! # Keys that an expression uses

`Value.Uses` reads off a written expression which keys it uses as operators, and where. A check accepts an
expression only if its table serves all of them but the logical ones, which are part of the grammar. The same
goes for any expression with the same canonical form, since the form shows the keys. -/

namespace Winnow

/-- Where entries stand: in an object of conditions, or in the value of a field. -/
inductive KeyPlace
  | object
  | field
deriving DecidableEq

/-- Do entries at a place use a key as an operator, there or further inside? What stands under an operator is
its operand, in which nothing is used; junctions and negations have expressions in it. -/
inductive UsesIn : KeyPlace → List (Value × Value) → KeyPlace → String → Prop
  | here {p : KeyPlace} {es : List (Value × Value)} {key : String} {v : Value} (h : (.text key, v) ∈ es)
    (hkey : isOperatorKey (.text key) = true) : UsesIn p es p key
  | junction {es fs : List (Value × Value)} {xs : List Value} {junction key : String} {v : Value} {q : KeyPlace}
    (h : (.text junction, v) ∈ es) (hjunction : junction = andKey ∨ junction = orKey) (hv : v.items? = some xs)
    (hx : .object fs ∈ xs) (hin : UsesIn .object fs q key) : UsesIn .object es q key
  | negation {p q : KeyPlace} {es fs : List (Value × Value)} {key : String} (h : (.text notKey, .object fs) ∈ es)
    (hin : UsesIn p fs q key) : UsesIn p es q key
  | field {p q : KeyPlace} {es fs : List (Value × Value)} {name key : String} (h : (.text name, .object fs) ∈ es)
    (hname : isOperatorKey (.text name) = false) (hin : UsesIn .field fs q key) : UsesIn p es q key

/-- Does the expression use a key as an operator at a place? -/
def Value.Uses (x : Value) (q : KeyPlace) (key : String) : Prop := ∃ es, x = .object es ∧ UsesIn .object es q key

/-- Does the key combine conditions at its place? -/
def IsLogical : KeyPlace → String → Prop
  | .object, key => key = andKey ∨ key = orKey ∨ key = notKey
  | .field, key => key = notKey

/-- Does the table hold an operator under the key that tests values? -/
def Table.Serves (t : Table) (key : String) : Prop := ∃ o, t.find? key = some o ∧ o.structural = false

namespace Grammar

variable (g : Grammar)

/-- Are the entries accepted at a place? -/
def Accepts : KeyPlace → List (Value × Value) → Prop
  | .object, es => ∃ depth path part ns, g.checkEntries depth path part es = .ok ns
  | .field, es => (∃ depth path c, g.checkCondition depth path (.object es) = .ok c) ∨
    ∃ path c, checkNegated g (.object es) path = .ok c

/-- What an entry is that is accepted at a place. -/
inductive AcceptedEntry : KeyPlace → Value × Value → Prop
  | junction {key : String} {v : Value} {xs : List Value} (hkey : key = andKey ∨ key = orKey)
    (hv : v.items? = some xs) (hxs : ∀ x ∈ xs, ∃ fs, x = .object fs ∧ g.Accepts .object fs) :
    AcceptedEntry .object (.text key, v)
  | negation {p : KeyPlace} {v : Value} (h : ∀ fs, v = .object fs → g.Accepts p fs) :
    AcceptedEntry p (.text notKey, v)
  | test {key : String} {v : Value} (hkey : isOperatorKey (.text key) = true) (hnot : key ≠ notKey)
    (h : g.table.Serves key) : AcceptedEntry .field (.text key, v)
  | field {p : KeyPlace} {name : String} {v : Value} (hname : isOperatorKey (.text name) = false)
    (h : ∀ fs, v = .object fs → g.Accepts .field fs) : AcceptedEntry p (.text name, v)

variable {g} {es fs : List (Value × Value)} {e : Value × Value}

theorem isOperatorKey_of_logical {key : String} (h : key = andKey ∨ key = orKey ∨ key = notKey) :
    isOperatorKey (.text key) = true := by
  rcases h with rfl | rfl | rfl <;> decide

theorem eq_text_of_isOperatorKey {k : Value} (h : isOperatorKey k = true) : ∃ key, k = .text key := by
  cases k with
  | text key => exact ⟨key, rfl⟩
  | _ => cases h

/-- With an operator among the keys, and no mixture, all of them are operators. -/
theorem isOperatorKey_of_unmixed
    (hmixed : ¬(!((es.map (·.1)).filter isOperatorKey).isEmpty &&
      ((es.map (·.1)).filter isOperatorKey).length != (es.map (·.1)).length) = true)
    (hoperators : (!((es.map (·.1)).filter isOperatorKey).isEmpty) = true) : ∀ e ∈ es, isOperatorKey e.1 = true := by
  have hlength : ((es.map (·.1)).filter isOperatorKey).length = (es.map (·.1)).length := by
    simpa [hoperators] using hmixed
  simpa using List.length_filter_eq_length_iff.1 hlength

/-- Among entries without operators the place makes no difference. -/
theorem usesIn_field {q : KeyPlace} {key : String} (h : UsesIn .object es q key)
    (hkeys : ∀ e ∈ es, isOperatorKey e.1 = false) : UsesIn .field es q key := by
  cases h with
  | here h hkey =>
    rw [hkeys _ h] at hkey
    cases hkey
  | junction h hjunction =>
    have hkey := hkeys _ h
    rw [isOperatorKey_of_logical (hjunction.imp_right .inl)] at hkey
    cases hkey
  | negation h => cases hkeys _ h
  | field h hname hin => exact .field h hname hin

theorem accepts_of_object {depth : Nat} {path : String} {part : Value} {n : Node}
    (h : (g.object depth path part fun _ => g.checkEntries depth path part es) = .ok n) : g.Accepts .object es := by
  unfold object at h
  split at h
  · cases h
  · obtain ⟨ns, hns, -⟩ := Outcome.map_eq_ok.1 h
    exact ⟨depth, path, part, ns, hns⟩

theorem accepts_of_checkItems {key : String} {depth : Nat} {path : String} {place : Nat} {xs : List Value}
    {ns : List Node} (h : g.checkItems key depth path place xs = .ok ns) :
    ∀ x ∈ xs, ∃ fs, x = .object fs ∧ g.Accepts .object fs := by
  induction xs generalizing place ns with
  | nil => exact nofun
  | cons x xs ih =>
    cases x with
    | object fs =>
      rw [checkItems] at h
      obtain ⟨n, hn, h⟩ := Outcome.bind_eq_ok.1 h
      obtain ⟨ms, hms, -⟩ := Outcome.bind_eq_ok.1 h
      exact List.forall_mem_cons.2 ⟨⟨fs, rfl, accepts_of_object hn⟩, ih hms⟩
    | _ => cases h

theorem acceptedEntry_of_nodeOf {depth : Nat} {path : String} {part : Value} {n : Node}
    (h : g.nodeOf depth path part e = .ok n) : g.AcceptedEntry .object e := by
  rcases e with ⟨k, v⟩
  cases k with
  | text key =>
    unfold nodeOf at h
    simp only at h
    split at h
    · next hkey =>
      cases v with
      | list xs | tuple xs =>
        obtain ⟨ns, hns, -⟩ := Outcome.map_eq_ok.1 h
        exact .junction hkey rfl (accepts_of_checkItems hns)
      | _ => cases h
    split at h
    · next hkey =>
      subst hkey
      refine .negation fun fs hv => ?_
      subst hv
      obtain ⟨m, hm, -⟩ := Outcome.map_eq_ok.1 h
      exact accepts_of_object hm
    split at h
    · obtain ⟨info, -, h⟩ := Outcome.bind_eq_ok.1 h
      cases h
    · next hkey =>
      refine .field (by simpa using hkey) fun fs hv => ?_
      subst hv
      obtain ⟨c, hc, -⟩ := Outcome.map_eq_ok.1 h
      exact .inl ⟨depth, _, c, hc⟩
  | _ => cases h

theorem acceptedEntry_of_testOf {map : Value} {path : String} {test : Test} (he : isOperatorKey e.1 = true)
    (h : testOf g map path e = .ok test) : g.AcceptedEntry .field e := by
  rcases e with ⟨k, v⟩
  obtain ⟨key, rfl⟩ := eq_text_of_isOperatorKey he
  unfold testOf at h
  split at h
  · next hkey =>
    obtain rfl : key = notKey := hkey
    refine .negation fun fs hv => ?_
    subst hv
    obtain ⟨c, hc, -⟩ := Outcome.map_eq_ok.1 h
    exact .inr ⟨_, c, hc⟩
  · next hkey =>
    obtain ⟨o, ho, h⟩ := Outcome.bind_eq_ok.1 h
    refine .test he hkey ⟨o, ?_, ?_⟩
    · unfold Table.lookup at ho
      split at ho
      · next hfind => rwa [Except.ok.inj ho] at hfind
      · cases ho
    · split at h
      · cases h
      · next hstructural => simpa using hstructural

/-- Operators and fields do not mix in the value of a field: its entries are tests or conditions. -/
theorem tests_or_object (h : g.Accepts .field es) :
    (∀ e ∈ es, isOperatorKey e.1 = true) ∧ (∃ map path ts, checkTests g map path es = .ok ts) ∨
      (∀ e ∈ es, isOperatorKey e.1 = false) ∧ g.Accepts .object es := by
  rcases h with ⟨depth, path, c, hc⟩ | ⟨path, c, hc⟩
  · rw [checkCondition] at hc
    split at hc
    · cases hc
    next hmixed =>
    split at hc
    · next hoperators =>
      obtain ⟨ts, hts, -⟩ := Outcome.map_eq_ok.1 hc
      exact .inl ⟨isOperatorKey_of_unmixed hmixed hoperators, _, _, ts, hts⟩
    · next hoperators =>
      obtain ⟨n, hn, -⟩ := Outcome.map_eq_ok.1 hc
      refine .inr ⟨?_, accepts_of_object hn⟩
      simpa using hoperators
  · rw [checkNegated] at hc
    split at hc
    · cases hc
    · next hshape =>
      obtain ⟨ts, hts, -⟩ := Outcome.map_eq_ok.1 hc
      refine .inl ⟨?_, _, _, ts, hts⟩
      simp only [Bool.or_eq_true, Bool.not_eq_true', not_or, Bool.not_eq_false, List.all_eq_true] at hshape
      exact hshape.2

theorem Accepts.entry {p : KeyPlace} (h : g.Accepts p es) (he : e ∈ es) : g.AcceptedEntry p e := by
  have hobject (h : g.Accepts .object es) : g.AcceptedEntry .object e := by
    obtain ⟨depth, path, part, ns, hns⟩ := h
    rw [checkEntries_eq] at hns
    obtain ⟨n, hn⟩ := Outcome.exists_mapM_eq_ok.1 ⟨ns, hns⟩ e he
    exact acceptedEntry_of_nodeOf hn
  cases p with
  | object => exact hobject h
  | field =>
    rcases tests_or_object h with ⟨hkeys, map, path, ts, hts⟩ | ⟨hkeys, h⟩
    · rw [checkTests_eq] at hts
      obtain ⟨test, htest⟩ := Outcome.exists_mapM_eq_ok.1 ⟨ts, hts⟩ e he
      exact acceptedEntry_of_testOf (hkeys e he) htest
    · -- entries without operators are accepted in objects as fields only
      have hkey := hkeys e he
      cases hobject h with
      | junction hlogical =>
        rw [isOperatorKey_of_logical (hlogical.imp_right .inl)] at hkey
        cases hkey
      | negation => cases hkey
      | field hname h => exact .field hname h

/-! ## Forms -/

/-- An entry has a counterpart in a mapping of the same form. -/
theorem Accepts.entry_of_form {p : KeyPlace} {key : String} {v : Value} (hfs : g.Accepts p fs)
    (hform : Canonical.ofValue (.object es) = Canonical.ofValue (.object fs)) (h : (.text key, v) ∈ es) :
    ∃ w, g.AcceptedEntry p (.text key, w) ∧ Canonical.ofValue w = Canonical.ofValue v := by
  have hforms : (Canonical.formEntries es).Perm (Canonical.formEntries fs) := by
    have horder := Canonical.orderKeys_eq_of_ofValue hform
    exact (Canonical.orderKeys_perm _).symm.trans (horder ▸ Canonical.orderKeys_perm _)
  obtain ⟨⟨k, w⟩, hf, heq⟩ := List.mem_map.1 (hforms.mem_iff.1 (List.mem_map_of_mem h))
  obtain ⟨hdisplay, hw⟩ := Prod.mk.inj heq
  refine ⟨w, ?_, hw⟩
  have hentry := hfs.entry hf
  have hkey : k = .text key := by
    cases hentry <;> exact congrArg Value.text hdisplay
  rwa [hkey] at hentry

theorem eq_object_of_form {v : Value} (h : Canonical.ofValue v = Canonical.ofValue (.object es)) :
    ∃ fs, v = .object fs := by
  rw [Canonical.ofValue_object] at h
  cases v with
  | object fs => exact ⟨fs, rfl⟩
  | int i =>
    rw [Canonical.ofValue_int] at h
    split at h <;> simp [Canonical.tagged, Canonical.intTag, Canonical.mapTag] at h
  | _ => simp [Canonical.ofValue, Canonical.ofCallable, Canonical.tagged, Canonical.mapTag, Canonical.listTag,
      Canonical.setTag, Canonical.momentTag, Canonical.dateTag, Canonical.patternTag, Canonical.callableTag,
      Canonical.otherTag] at h

/-- Whatever entries with the form of accepted ones use is logical or served. -/
theorem logical_or_serves {p q : KeyPlace} {key : String} (h : UsesIn p es q key) (hfs : g.Accepts p fs)
    (hform : Canonical.ofValue (.object es) = Canonical.ofValue (.object fs)) :
    IsLogical q key ∨ g.table.Serves key := by
  induction h generalizing fs with
  | @here p _ key _ h hkey =>
    obtain ⟨w, hentry, -⟩ := hfs.entry_of_form hform h
    cases hentry with
    | junction hlogical => exact .inl (hlogical.imp_right .inl)
    | negation =>
      cases p
      · exact .inl (.inr (.inr rfl))
      · exact .inl rfl
    | test _ _ hserves => exact .inr hserves
    | field hname => exact absurd hkey (by simp [hname])
  | @junction es gs xs junction _ _ _ h hjunction hv hx _ ih =>
    obtain ⟨w, hentry, hw⟩ := hfs.entry_of_form hform h
    cases hentry with
    | @junction _ _ ys _ hys hall =>
      rw [Canonical.ofValue_of_items? hv, Canonical.ofValue_of_items? hys] at hw
      have hitems : ys.map Canonical.ofValue = xs.map Canonical.ofValue := by
        simpa [Canonical.tagged] using hw
      obtain ⟨y, hy, hform⟩ := List.mem_map.1 (hitems ▸ List.mem_map_of_mem hx)
      obtain ⟨gs', rfl, hgs⟩ := hall y hy
      exact ih hgs hform.symm
    | negation => exact absurd hjunction (by decide)
    | field hname =>
      rw [isOperatorKey_of_logical (hjunction.imp_right .inl)] at hname
      cases hname
  | negation h _ ih =>
    obtain ⟨w, hentry, hw⟩ := hfs.entry_of_form hform h
    obtain ⟨gs, rfl⟩ := eq_object_of_form hw
    cases hentry with
    | junction _ hys => cases hys
    | negation h => exact ih (h gs rfl) hw.symm
    | test _ hnot => exact absurd rfl hnot
    | field hname => cases hname
  | field h hname _ ih =>
    obtain ⟨w, hentry, hw⟩ := hfs.entry_of_form hform h
    obtain ⟨gs, rfl⟩ := eq_object_of_form hw
    cases hentry with
    | junction _ hys => cases hys
    | negation => cases hname
    | test hkey => exact absurd hkey (by simp [hname])
    | field _ h => exact ih (h gs rfl) hw.symm

end Grammar

/-! ## Validation -/

variable {table : Table} {functions : Functions} {x depth : Value} {n : Node}

theorem accepts_of_validate {es : List (Value × Value)} (h : validate table functions depth (.object es) = .ok n) :
    ∃ g : Grammar, g.table = table ∧ g.Accepts .object es := by
  obtain ⟨limit, -, h⟩ := Outcome.bind_eq_ok.1 h
  exact ⟨_, rfl, Grammar.accepts_of_object h⟩

/-- An expression is accepted only if its table serves all keys that it uses but the logical ones, and so is
any expression with its canonical form. -/
theorem logical_or_serves_of_validate {y : Value} (h : validate table functions depth y = .ok n)
    (hform : Canonical.ofValue x = Canonical.ofValue y) {q : KeyPlace} {key : String} (hx : x.Uses q key) :
    IsLogical q key ∨ table.Serves key := by
  obtain ⟨es, rfl, hin⟩ := hx
  obtain ⟨fs, rfl⟩ := Grammar.eq_object_of_form hform.symm
  obtain ⟨g, rfl, hfs⟩ := accepts_of_validate h
  exact Grammar.logical_or_serves hin hfs hform

end Winnow
