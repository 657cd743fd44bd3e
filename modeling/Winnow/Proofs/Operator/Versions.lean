import Winnow.Operator.Registry
import Winnow.Proofs.Operator.Registered
/-! # Versions of registries

A change that fails leaves the registry as it was, and one that succeeds raises the version. So moments of a run with
one version have one table, and what is kept under a version stays good for it. All along, operators stand under
their own names, which are keys, and can be applied unless they are structural. -/

namespace Winnow.Registry

variable {α : Type} {r : Registry} {o p : OperatorInfo} {overwrite : Bool} {key : String} {c : Change} {f : Failure}
  {refused : Bool} {next : Action α} {answer : Option OperatorInfo} {e : String × OperatorInfo}
  {es : List (String × OperatorInfo)}

/-! ## What a change does -/

theorem failIf_run :
    (do failIf refused f; next).run.run r = if refused then (.error f, r) else next.run.run r := by
  cases refused <;> rfl

theorem get_run {next : Registry → Action α} : (do next (← get)).run.run r = (next r).run.run r := rfl

theorem register_run : (register o overwrite).run.run r =
    if !Table.isKey o.name then (.error (.refused (.operatorKey o.name)), r)
    else if r.holds o.name && !overwrite then (.error (.refused (.operatorTaken o.name)), r)
    else if o.rule.isNone && !o.structural then (.error (.refused (.operatorWithoutFunction o.name)), r)
    else (.ok (), ⟨assign o.name o r.entries, r.version + 1⟩) := by
  rw [register, failIf_run, get_run, failIf_run, failIf_run]
  rfl

theorem unregister_run : (unregister key).run.run r =
    if !r.holds key then (.error (.unknownOperator (Table.unknown key)), r)
    else (.ok (), ⟨r.entries.filter (·.1 != key), r.version + 1⟩) := by
  rw [unregister, get_run, failIf_run]
  rfl

theorem map_run {β : Type} (g : α → β) (a : Action α) :
    (g <$> a).run.run r = ((a.run.run r).1.map g, (a.run.run r).2) := by
  rw [ExceptT.run_map, StateT.run_map]
  rfl

theorem registerCustom_run {custom : Table.Custom} : (registerCustom custom overwrite).run.run r =
    (((register custom.info overwrite).run.run r).1.map fun _ => custom.info,
      ((register custom.info overwrite).run.run r).2) :=
  map_run (fun _ => custom.info) _

/-- Does the operator stand under its own name, which is a key, and can it be applied unless it is structural? -/
structure Proper (e : String × OperatorInfo) : Prop where
  ownName : e.1 = e.2.name
  marked : ∃ rest, rest ≠ "" ∧ e.1 = "$" ++ rest
  ready : e.2.structural = true ∨ ∃ rule, e.2.rule = some rule

theorem isKey_iff : Table.isKey key = true ↔ ∃ rest, rest ≠ "" ∧ key = "$" ++ rest := by
  unfold Table.isKey
  split
  · next x xs hkey =>
    refine iff_of_true rfl ⟨.ofList (x :: xs), by simp [String.ext_iff], ?_⟩
    rw [String.ext_iff, hkey]
    simp
  · next hkey =>
    refine iff_of_false (by simp) ?_
    rintro ⟨rest, hrest, rfl⟩
    rcases hchars : rest.toList with _ | ⟨x, xs⟩
    · exact hrest (String.ext_iff.2 hchars)
    · exact hkey x xs (by simp [hchars])

theorem register_cases : (∃ f, (register o overwrite).run.run r = (.error f, r)) ∨
    Proper (o.name, o) ∧ (register o overwrite).run.run r = (.ok (), ⟨assign o.name o r.entries, r.version + 1⟩) := by
  rw [register_run]
  -- the checks in the order in which they are made
  by_cases hkey : Table.isKey o.name = true
  swap
  · exact .inl ⟨_, if_pos (by simpa using hkey)⟩
  rw [if_neg (by simpa using hkey)]
  by_cases htaken : (r.holds o.name && !overwrite) = true
  · exact .inl ⟨_, if_pos htaken⟩
  rw [if_neg htaken]
  by_cases hready : (o.rule.isNone && !o.structural) = true
  · exact .inl ⟨_, if_pos hready⟩
  refine .inr ⟨⟨rfl, isKey_iff.1 hkey, ?_⟩, if_neg hready⟩
  rcases hrule : o.rule with _ | rule
  · exact .inl (by simpa [hrule] using hready)
  · exact .inr ⟨rule, rfl⟩

/-- All that a change can do: it fails and leaves the registry as it is, or it puts a proper operator under its name
or removes the one under a key, and raises the version. -/
theorem Change.run_cases (c : Change) (r : Registry) :
    (∃ f, c.run r = (.error f, r)) ∨
    (∃ o answer, Proper (o.name, o) ∧ c.run r = (.ok answer, ⟨assign o.name o r.entries, r.version + 1⟩)) ∨
    ∃ key, c.run r = (.ok none, ⟨r.entries.filter (·.1 != key), r.version + 1⟩) := by
  cases c with
  | register o overwrite =>
    rw [run, action, map_run]
    rcases register_cases with ⟨f, h⟩ | ⟨hproper, h⟩
    · exact .inl ⟨f, by rw [h]; rfl⟩
    · exact .inr (.inl ⟨o, _, hproper, by rw [h]; rfl⟩)
  | registerCustom custom overwrite =>
    rw [run, action, map_run, registerCustom_run]
    rcases register_cases with ⟨f, h⟩ | ⟨hproper, h⟩
    · exact .inl ⟨f, by rw [h]; rfl⟩
    · exact .inr (.inl ⟨custom.info, _, hproper, by rw [h]; rfl⟩)
  | unregister key =>
    rw [run, action, map_run, unregister_run]
    split
    · exact .inl ⟨_, rfl⟩
    · exact .inr (.inr ⟨key, rfl⟩)

theorem Change.run_of_error (h : (c.run r).1 = .error f) : (c.run r).2 = r := by
  rcases c.run_cases r with ⟨f, hc⟩ | ⟨o, answer, -, hc⟩ | ⟨key, hc⟩
  · rw [hc]
  · rw [hc] at h
    cases h
  · rw [hc] at h
    cases h

theorem Change.version_of_ok (h : (c.run r).1 = .ok answer) : (c.run r).2.version = r.version + 1 := by
  rcases c.run_cases r with ⟨f, hc⟩ | ⟨o, answer, -, hc⟩ | ⟨key, hc⟩
  · rw [hc] at h
    cases h
  · rw [hc]
  · rw [hc]

theorem Change.run_version (c : Change) (r : Registry) : (c.run r).2 = r ∨ r.version < (c.run r).2.version := by
  rcases hc : (c.run r).1 with f | answer
  · exact .inl (run_of_error hc)
  · exact .inr (by rw [version_of_ok hc]; omega)

/-! ## What every moment has -/

/-- Are keys told apart, and are the operators under them proper? -/
structure WellKeyed (r : Registry) : Prop where
  apart : (r.entries.map (·.1)).Nodup
  proper : ∀ e ∈ r.entries, Proper e

theorem mem_assign (h : e ∈ assign key o es) : e = (key, o) ∨ e ∈ es := by
  induction es with
  | nil => exact .inl (List.mem_singleton.1 h)
  | cons e' es ih =>
    unfold assign at h
    split at h
    · exact (List.mem_cons.1 h).imp_right (List.mem_cons_of_mem _)
    · rcases List.mem_cons.1 h with rfl | h
      · exact .inr (List.mem_cons_self ..)
      · exact (ih h).imp_right (List.mem_cons_of_mem _)

/-- In a list of operators under their own names, one is put where a table puts it. -/
theorem map_assign (h : ∀ e ∈ es, Proper e) : (assign o.name o es).map (·.2) = Table.put o (es.map (·.2)) := by
  induction es with
  | nil => rfl
  | cons e es ih =>
    obtain ⟨he, hes⟩ := List.forall_mem_cons.1 h
    rw [assign, List.map_cons, Table.put, he.ownName]
    split
    · rfl
    · rw [List.map_cons, ih hes]

theorem map_names (h : ∀ e ∈ es, Proper e) : es.map (·.1) = (es.map (·.2)).map (·.name) := by
  rw [List.map_map]
  exact List.map_congr_left fun e he => (h e he).ownName

theorem WellKeyed.assign (h : r.WellKeyed) (ho : Proper (o.name, o)) {version : Nat} :
    WellKeyed ⟨assign o.name o r.entries, version⟩ := by
  have hproper : ∀ e ∈ Registry.assign o.name o r.entries, Proper e := by
    intro e he
    rcases mem_assign he with rfl | he
    · exact ho
    · exact h.proper e he
  refine ⟨?_, hproper⟩
  -- under their own names, operators are put as into a table
  rw [map_names hproper, map_assign h.proper]
  exact Table.nodup_put (map_names h.proper ▸ h.apart)

theorem WellKeyed.remove (h : r.WellKeyed) {version : Nat} : WellKeyed ⟨r.entries.filter (·.1 != key), version⟩ :=
  ⟨(List.filter_sublist.map _).nodup h.apart, fun e he => h.proper e (List.mem_of_mem_filter he)⟩

theorem WellKeyed.run (h : r.WellKeyed) (c : Change) : (c.run r).2.WellKeyed := by
  rcases c.run_cases r with ⟨f, hc⟩ | ⟨o, answer, ho, hc⟩ | ⟨key, hc⟩
  · rw [hc]
    exact h
  · rw [hc]
    exact h.assign ho
  · rw [hc]
    exact h.remove

theorem wellKeyed_make (builtins : Bool) : (make builtins).WellKeyed := by
  have hempty : WellKeyed {} := ⟨List.nodup_nil, fun _ he => absurd he List.not_mem_nil⟩
  unfold make
  split
  · exact List.foldlRecOn _ _ hempty fun r hr o _ => hr.run _
  · exact hempty

/-! ## Registries and tables -/

/-- What the change comes to for a table. -/
def Change.onTable (t : Table) : Change → Outcome (Option OperatorInfo × Table)
  | register o overwrite => (t.register o overwrite).map (none, ·)
  | registerCustom c overwrite => (t.registerCustom c overwrite).map fun (o, t) => (some o, t)
  | unregister key => (t.unregister key).map (none, ·)

theorem WellKeyed.holds_eq (h : r.WellKeyed) : r.holds key = r.table.contains key := by
  rw [Bool.eq_iff_iff, holds, List.lookup_isSome_iff, Table.contains, Table.find?, List.find?_isSome]
  simp only [table, List.mem_map, exists_exists_and_eq_and]
  refine exists_congr fun e => and_congr_right fun he => ?_
  rw [(h.proper e he).ownName, beq_iff_eq, beq_iff_eq, eq_comm]

theorem WellKeyed.register_table (h : r.WellKeyed) :
    r.table.register o overwrite = ((register o overwrite).run.run r).1.map fun _ =>
      ((register o overwrite).run.run r).2.table := by
  rw [register_run, Table.register, ← h.holds_eq]
  have hput : Table.put o r.table.operators = (Registry.assign o.name o r.entries).map (·.2) :=
    (map_assign h.proper).symm
  rw [hput]
  repeat' split
  all_goals rfl

/-- A registry is changed as the table that it shows, with the same answers and failures. -/
theorem WellKeyed.run_table (h : r.WellKeyed) (c : Change) :
    c.onTable r.table = (c.run r).1.map fun answer => (answer, (c.run r).2.table) := by
  cases c with
  | register o overwrite =>
    rw [Change.onTable, Change.run, Change.action, map_run, h.register_table]
    cases ((Registry.register o overwrite).run.run r).1 <;> rfl
  | registerCustom custom overwrite =>
    rw [Change.onTable, Change.run, Change.action, map_run, registerCustom_run, Table.registerCustom,
      h.register_table]
    cases ((Registry.register custom.info overwrite).run.run r).1 <;> rfl
  | unregister key =>
    rw [Change.onTable, Change.run, Change.action, map_run, unregister_run, Table.unregister, ← h.holds_eq]
    have hfilter : r.table.operators.filter (·.name != key) = (r.entries.filter (·.1 != key)).map (·.2) := by
      rw [table, List.filter_map]
      exact congrArg _ (List.filter_congr fun e he => by rw [(h.proper e he).ownName]; rfl)
    rw [hfilter]
    cases r.holds key <;> rfl

theorem table_make : (make true).table = Table.builtins := by decide +kernel

/-! ## Versions -/

/-- Versions identify tables: a change that fails changes nothing, one that succeeds raises the version, so that
moments with one version are the same, and at every moment operators stand properly under keys of their own. -/
theorem versions_identify_tables (builtins : Bool) (changes : List Change) :
    (∀ (c : Change) r, (∀ f, (c.run r).1 = .error f → (c.run r).2 = r) ∧
      ∀ answer, (c.run r).1 = .ok answer → r.version < (c.run r).2.version) ∧
    (∀ r ∈ moments changes (make builtins), ∀ r' ∈ moments changes (make builtins),
      r.version = r'.version → r.entries = r'.entries) ∧
    ∀ r ∈ moments changes (make builtins), r.WellKeyed := by
  refine ⟨fun c r => ⟨fun f => Change.run_of_error, fun answer h => ?_⟩, fun r hr r' hr' hversion => ?_, ?_⟩
  · rw [Change.version_of_ok h]
    exact Nat.lt_succ_self _
  · exact congrArg _ (eq_of_mem_scanl (fun r (c : Change) => c.run_version r) hr hr' hversion)
  · exact forall_mem_scanl (fun r c hr => hr.run c) (wellKeyed_make builtins)

def even : Table.Custom := { name := "$even", function := .function "even" }

/-- Registered once and again, an operator is refused the second time. -/
theorem versions_identify_tables_even :
    let add := Change.registerCustom even false
    let once := (add.run (make false)).2
    let twice := (add.run once).2
    (add.run (make false)).1 = .ok (some even.info) ∧ (make false).version < once.version ∧
    (add.run once).1 = .error (.refused (.operatorTaken "$even")) ∧ twice = once ∧
    once.version = twice.version ∧ once.entries = twice.entries ∧ twice.WellKeyed := by
  intro add once twice
  obtain ⟨hchange, hsame, hkeyed⟩ := versions_identify_tables false [add, add]
  have hok : (add.run (make false)).1 = .ok (some even.info) := rfl
  have hrefused : (add.run once).1 = .error (.refused (.operatorTaken "$even")) := rfl
  have hversion : once.version = twice.version := rfl
  have hmoments : moments [add, add] (make false) = [make false, once, twice] := rfl
  have honce : once ∈ moments [add, add] (make false) := by simp [hmoments]
  have htwice : twice ∈ moments [add, add] (make false) := by simp [hmoments]
  exact ⟨hok, (hchange add _).2 _ hok, hrefused, (hchange add once).1 _ hrefused, hversion,
    hsame once honce twice htwice hversion, hkeyed twice htwice⟩

end Winnow.Registry
