import Winnow.Proofs.Expression.Depth
import Winnow.Proofs.Expression.ReadBack
import Winnow.Proofs.Matching.Agree
/-! # Nested objects as dot paths

A condition in a nested object is a condition on the path of the object, a dot and its key.
`Value.conditionsFrom` lists the conditions in a written one with their paths. Where the paths of nested objects
lead to records, a nested condition holds as the conjunction of the flat ones does: going on from what a path
leads to is going on along the path, and a nested object is a conjunction, so the two are compared entry by
entry (`Condition.Flattens`). -/

namespace Winnow
open Evaluation Outcome

/-! ## Paths -/

namespace Path

/-- The path of a part of what a path leads to. -/
def dotted (path part : String) : String := path ++ "." ++ part

theorem splitOn_ne_nil (separator : Char) (cs : List Char) : splitOn separator cs ≠ [] := by
  unfold splitOn
  split
  · exact List.cons_ne_nil _ _
  split
  · exact List.cons_ne_nil _ _
  split <;> exact List.cons_ne_nil _ _

theorem splitOn_append (separator : Char) (xs ys : List Char) :
    splitOn separator (xs ++ separator :: ys) = splitOn separator xs ++ splitOn separator ys := by
  induction xs with
  | nil => simp [splitOn]
  | cons x xs ih =>
    rw [List.cons_append, splitOn, splitOn, ih]
    split
    · rfl
    · cases h : splitOn separator xs with
      | nil => exact absurd h (splitOn_ne_nil separator xs)
      | cons part parts => rfl

theorem segments_dotted (path part : String) : segments (dotted path part) = segments path ++ segments part := by
  simp [segments, dotted, splitOn_append]

/-- A dotted path is followed part by part. -/
theorem resolve_dotted (record : Value) (path part : String) :
    resolve record (segments (dotted path part)) = resolve (resolve record (segments path)) (segments part) := by
  rw [segments_dotted, resolve, List.foldl_append]
  rfl

theorem isOperatorKey_dotted {path : String} (h : isOperatorKey (.text path) = false) (part : String) :
    isOperatorKey (.text (dotted path part)) = false := by
  unfold isOperatorKey at h ⊢
  simp only [dotted, String.toList_append] at h ⊢
  cases hpath : path.toList with
  | nil => rfl
  | cons c cs =>
    rw [hpath] at h
    exact h

/-- Messages set off a part by a dot, unless it starts with a bracket. -/
theorem join_eq_dotted {path part : String} (hpath : path ≠ "") (hpart : part.toList.head? ≠ some '[') :
    join path part = dotted path part := by
  rw [join, if_neg (by simpa using hpath), if_neg hpart, dotted]

end Path

/-! ## Conditions in conditions -/

namespace Value

/-- Is a condition a nested object? All its keys are fields. -/
def isNested : Value → Bool
  | object entries => !(object entries).hasOperator
  | _ => false

mutual

/-- A condition on a path and all that are nested in it, each with its path. -/
def conditionsFrom (path : String) (v : Value) : List (String × Value) :=
  match v with
  | object entries =>
    (path, object entries) :: if (object entries).hasOperator then [] else conditionsBelow path entries
  | v => [(path, v)]
termination_by structural v

def conditionsBelow (path : String) (es : List (Value × Value)) : List (String × Value) :=
  match es with
  | [] => []
  | (k, v) :: rest => v.conditionsFrom (Path.dotted path k.display) ++ conditionsBelow path rest
termination_by structural es

end

/-- The conditions in which no others are nested: each with its dotted path is a condition of its own. -/
def leavesFrom (path : String) (v : Value) : List (String × Value) :=
  (v.conditionsFrom path).filter fun c => !c.2.isNested

/-- Is the value one record for nested objects, a mapping or an object with attributes? -/
def isRecord (v : Value) : Bool := v.hasFields && !v.isArray

/-- Do the paths on which nested objects stand lead to records? -/
def NestsIn (v : Value) (path : String) (record : Value) : Prop :=
  ∀ c ∈ v.conditionsFrom path, c.2.isNested = true → (Path.resolve record (Path.segments c.1)).isRecord = true

/-- Do messages name the fields in a condition by their dotted paths? They set off no part that starts with a
bracket and none that follows an empty path. -/
def NamedByPaths (v : Value) (path : String) : Prop :=
  path ≠ "" ∧ ∀ c ∈ v.conditionsFrom path, ∀ e ∈ entriesOf c.2, e.1.display.toList.head? ≠ some '['

theorem conditionsBelow_eq (path : String) (es : List (Value × Value)) :
    conditionsBelow path es = es.flatMap fun e => e.2.conditionsFrom (Path.dotted path e.1.display) := by
  induction es with
  | nil => rfl
  | cons e es ih => rw [conditionsBelow, ih, List.flatMap_cons]

theorem conditionsFrom_nested {es : List (Value × Value)} (h : (object es).isNested = true) (path : String) :
    (object es).conditionsFrom path =
      (path, object es) :: es.flatMap fun e => e.2.conditionsFrom (Path.dotted path e.1.display) := by
  rw [conditionsFrom, if_neg (by simpa [isNested] using h), conditionsBelow_eq]

theorem conditionsFrom_leaf {v : Value} (h : v.isNested = false) (path : String) :
    v.conditionsFrom path = [(path, v)] := by
  cases v with
  | object es => rw [conditionsFrom, if_pos (by simpa [isNested] using h)]
  | _ => rfl

theorem leavesFrom_nested {es : List (Value × Value)} (h : (object es).isNested = true) (path : String) :
    (object es).leavesFrom path = es.flatMap fun e => e.2.leavesFrom (Path.dotted path e.1.display) := by
  rw [leavesFrom, conditionsFrom_nested h, List.filter_cons_of_neg (by simp [h]), List.filter_flatMap]
  rfl

theorem leavesFrom_leaf {v : Value} (h : v.isNested = false) (path : String) : v.leavesFrom path = [(path, v)] := by
  simp [leavesFrom, conditionsFrom_leaf h, h]

/-- A condition in an entry of a nested object is one in the object. -/
theorem mem_conditionsFrom_entry {es : List (Value × Value)} (h : (object es).isNested = true) {path : String}
    {e : Value × Value} (he : e ∈ es) {c : String × Value}
    (hc : c ∈ e.2.conditionsFrom (Path.dotted path e.1.display)) : c ∈ (object es).conditionsFrom path := by
  rw [conditionsFrom_nested h]
  exact List.mem_cons_of_mem _ (List.mem_flatMap.2 ⟨e, he, hc⟩)

theorem mem_conditionsFrom_self (v : Value) (path : String) : (path, v) ∈ v.conditionsFrom path := by
  cases v <;> simp [conditionsFrom]

theorem NamedByPaths.entry {es : List (Value × Value)} {path : String} (h : (object es).NamedByPaths path)
    (hes : (object es).isNested = true) {e : Value × Value} (he : e ∈ es) :
    Path.join path e.1.display = Path.dotted path e.1.display ∧ e.2.NamedByPaths (Path.dotted path e.1.display) := by
  obtain ⟨hpath, hnamed⟩ := h
  refine ⟨Path.join_eq_dotted hpath (hnamed _ (mem_conditionsFrom_self _ _) e he), ?_, fun c hc => ?_⟩
  · intro hempty
    have := congrArg String.length hempty
    simp [Path.dotted] at this
  · exact hnamed c (mem_conditionsFrom_entry hes he hc)

theorem subrecords_of_isRecord {v : Value} (h : v.isRecord = true) : v.subrecords = [v] := by
  cases v <;> first | rfl | cases h

end Value

/-! ## Flat conditions -/

/-- Are the nodes the trees of the flat conditions in a written one, and do they all match where the condition
holds of what the path leads to? -/
structure Condition.Flattens (g : Grammar) (c : Condition) (path : String) (v : Value) (ms : List Node) : Prop where
  accepted : List.Forall₂ (fun leaf m => g.check (.ofPairs [leaf]) = .ok m) (v.leavesFrom path) ms
  matched {t : Terms} {record : Value} (hrecord : v.NestsIn path record)
      (answer : String → Int → Outcome (Option Pattern.Program)) :
    (c.holds t g.table (Path.resolve record (Path.segments path))).run answer =
      (allMatch t g.table ms record).run answer

section

variable {t : Terms} {table : Table} {answer : String → Int → Outcome (Option Pattern.Program)}

theorem run_allMatch_append (ns ms : List Node) (record : Value) :
    (allMatch t table (ns ++ ms) record).run answer =
      (allMatch t table ns record).run answer >>= fun b =>
        if b then (allMatch t table ms record).run answer else .ok false := by
  induction ns with
  | nil => rfl
  | cons n ns ih =>
    rw [List.cons_append, allMatch, allMatch, run_bind, run_bind]
    rcases (n.matches t table record).run answer with e | _ | _
    · rfl
    · rfl
    · exact ih

theorem run_allMatch_singleton (n : Node) (record : Value) :
    (allMatch t table [n] record).run answer = (n.matches t table record).run answer :=
  (conjunction_run [n] record).symm

/-- All match exactly when each does, and there is an answer when each has one. -/
theorem run_allMatch (ns : List Node) (record : Value) :
    ((allMatch t table ns record).run answer = .ok true ↔
      ∀ n ∈ ns, (n.matches t table record).run answer = .ok true) ∧
    ((∀ n ∈ ns, ∃ b, (n.matches t table record).run answer = .ok b) →
      ∃ b, (allMatch t table ns record).run answer = .ok b) := by
  induction ns with
  | nil => exact ⟨⟨fun _ _ hn => (nomatch hn), fun _ => rfl⟩, fun _ => ⟨true, rfl⟩⟩
  | cons n ns ih =>
    rw [allMatch, run_bind, List.forall_mem_cons, List.forall_mem_cons]
    rcases (n.matches t table record).run answer with e | _ | _
    · exact ⟨⟨nofun, fun h => nomatch h.1⟩, fun h => nomatch h.1⟩
    · exact ⟨⟨nofun, fun h => nomatch h.1⟩, fun _ => ⟨false, rfl⟩⟩
    · exact ⟨ih.1.trans (and_iff_right rfl).symm, fun h => ih.2 h.2⟩

end

namespace Condition.Flattens

variable {g : Grammar} {path : String}

/-- A condition in which none is nested is the flat one. -/
theorem leaf (hlimit : 1 ≤ g.maxDepth) (hkey : isOperatorKey (.text path) = false) {v : Value}
    (hv : v.isNested = false) {c : Condition} (hc : g.checkCondition 1 path v = .ok c) :
    c.Flattens g path v [.field path c] := by
  refine ⟨?_, fun {t record} _ answer => ?_⟩
  · rw [Value.leavesFrom_leaf hv]
    exact .cons ((Grammar.check_field hkey).2 ⟨hlimit, c, hc, rfl⟩) .nil
  · rw [run_allMatch_singleton, Node.matches]

/-- The fields of a nested object match what its path leads to as their flat conditions match the record. -/
theorem entries {es : List (Value × Value)} {ns : List Node}
    (h : List.Forall₂ (fun e n => ∃ c ms, n = .field e.1.display c ∧
      c.Flattens g (Path.dotted path e.1.display) e.2 ms) es ns) :
    ∃ ms, List.Forall₂ (fun leaf m => g.check (.ofPairs [leaf]) = .ok m)
        (es.flatMap fun e => e.2.leavesFrom (Path.dotted path e.1.display)) ms ∧
      ∀ {t record}, (∀ e ∈ es, e.2.NestsIn (Path.dotted path e.1.display) record) →
        ∀ answer, (allMatch t g.table ns (Path.resolve record (Path.segments path))).run answer =
          (allMatch t g.table ms record).run answer := by
  induction h with
  | nil => exact ⟨[], .nil, fun _ _ => rfl⟩
  | cons hentry _ ih =>
    obtain ⟨c, ms, rfl, hc⟩ := hentry
    obtain ⟨ms', haccepted, hmatched⟩ := ih
    refine ⟨ms ++ ms', ?_, fun {t record} hrecord answer => ?_⟩
    · rw [List.flatMap_cons]
      exact List.rel_append hc.accepted haccepted
    · obtain ⟨hhead, htail⟩ := List.forall_mem_cons.1 hrecord
      -- what the field's key leads to from the path is what its dotted path leads to
      rw [allMatch, run_bind, Node.matches, ← Path.resolve_dotted, hc.matched hhead, run_allMatch_append]
      refine congrArg _ (funext fun b => ?_)
      cases b
      · rfl
      · exact hmatched htail answer

theorem nested {es : List (Value × Value)} (hes : (Value.object es).isNested = true) {ns : List Node}
    (h : List.Forall₂ (fun e n => ∃ c ms, n = .field e.1.display c ∧
      c.Flattens g (Path.dotted path e.1.display) e.2 ms) es ns) :
    ∃ ms, (Condition.nested (Grammar.conjunction ns)).Flattens g path (.object es) ms := by
  obtain ⟨ms, haccepted, hmatched⟩ := entries h
  refine ⟨ms, ?_, fun {t record} hrecord answer => ?_⟩
  · rw [Value.leavesFrom_nested hes]
    exact haccepted
  · have hhere := hrecord _ (Value.mem_conditionsFrom_self _ _) hes
    rw [Condition.holds, Value.subrecords_of_isRecord hhere]
    rw [anyItem, anyItem, run_single, conjunction_run]
    exact hmatched (fun e he c hc => hrecord c (Value.mem_conditionsFrom_entry hes he hc)) answer

end Condition.Flattens

/-! ## Checks -/

section

variable {table : Table} {functions : Functions} {limit : Nat}

/-- The check of a nested object checks the condition of each of its fields. -/
theorem checkCondition_fields {g : Grammar} {es : List (Value × Value)} (hnested : (Value.object es).isNested = true)
    {depth : Nat} {place : String} {c : Condition} (h : g.checkCondition depth place (.object es) = .ok c) :
    ∃ ns, c = .nested (Grammar.conjunction ns) ∧ List.Forall₂ (fun e n => ∃ key d, e.1 = .text key ∧
      n = .field key d ∧ g.checkCondition (depth + 1) (Path.join place key) e.2 = .ok d) es ns := by
  have hoperator : (Value.object es).hasOperator = false := by simpa [Value.isNested] using hnested
  have hfields : ∀ e ∈ es, isOperatorKey e.1 = false := by simpa [Value.hasOperator] using hoperator
  rw [Grammar.checkCondition_nested hoperator] at h
  obtain ⟨n, hn, rfl⟩ := map_eq_ok.1 h
  rw [Grammar.object] at hn
  split at hn
  · cases hn
  obtain ⟨ns, hns, rfl⟩ := map_eq_ok.1 hn
  rw [Grammar.checkEntries_eq, mapM_eq_ok] at hns
  refine ⟨ns, rfl, forall₂_imp_of_mem hns fun e he n _ hnode => ?_⟩
  obtain ⟨k, v⟩ := e
  cases k with
  | text key =>
    rw [Grammar.nodeOf_field (hfields _ he)] at hnode
    obtain ⟨d, hd, rfl⟩ := map_eq_ok.1 hnode
    exact ⟨key, d, rfl, rfl, hd⟩
  | _ => cases hnode

/-- A condition in which none is nested is checked alike on any level, and wherever the checks of operands do not
tell places apart. -/
theorem checkCondition_leaf {v : Value} (hv : v.isNested = false) (hwell : v.WellMapped) {path place : String}
    (hplace : table.ChecksPurely functions ∨ place = path) {depth : Nat} {c : Condition}
    (h : Grammar.checkCondition ⟨table, functions, limit⟩ depth place v = .ok c) :
    Grammar.checkCondition ⟨table, functions, limit⟩ 1 path v = .ok c := by
  cases v with
  | object es =>
    have hoperator : (Value.object es).hasOperator = true := by simpa [Value.isNested] using hv
    rw [Grammar.checkCondition_operators hoperator] at h ⊢
    split at h
    · cases h
    next hmixed =>
    rw [if_neg hmixed]
    obtain ⟨ts, hts, rfl⟩ := map_eq_ok.1 h
    rcases hplace with hpure | rfl
    · have helsewhere := checkTests_elsewhere hpure limit limit hwell (.object es) (.object es) place path
      obtain ⟨_, hts', rfl⟩ := helsewhere.exists_ok hts
      rw [hts', map_ok]
    · rw [hts, map_ok]
  | _ => exact h

/-- Every checked condition comes to the trees of the flat ones. -/
theorem exists_flattens (hlimit : 1 ≤ limit) {v : Value} (hwell : v.WellMapped) {path place : String}
    (hkey : isOperatorKey (.text path) = false)
    (hplace : table.ChecksPurely functions ∨ place = path ∧ v.NamedByPaths path) {depth : Nat} {c : Condition}
    (h : Grammar.checkCondition ⟨table, functions, limit⟩ depth place v = .ok c) :
    ∃ ms, c.Flattens ⟨table, functions, limit⟩ path v ms := by
  induction v using Value.induction generalizing path place depth c with
  | step v ih =>
    cases hnested : v.isNested with
    | false =>
      have hflat := checkCondition_leaf hnested hwell (hplace.imp_right And.left) h
      exact ⟨_, .leaf hlimit hkey hnested hflat⟩
    | true =>
      obtain ⟨es, rfl⟩ : ∃ es, v = .object es := by cases v <;> first | exact ⟨_, rfl⟩ | cases hnested
      obtain ⟨ns, rfl, hns⟩ := checkCondition_fields hnested h
      -- the condition of each field is again one on a path, so the induction hypothesis flattens it
      refine Condition.Flattens.nested hnested (forall₂_imp_of_mem hns fun e he n _ hentry => ?_)
      obtain ⟨key, d, hk, rfl, hd⟩ := hentry
      have hpart := (Value.mem_parts_object he).2
      have hdisplay : e.1.display = key := congrArg Value.display hk
      rw [hdisplay]
      have hplace' : table.ChecksPurely functions ∨
          Path.join place key = Path.dotted path key ∧ e.2.NamedByPaths (Path.dotted path key) := by
        refine hplace.imp_right fun ⟨hplace, hnamed⟩ => ?_
        rw [hplace, ← hdisplay]
        exact hnamed.entry hnested he
      obtain ⟨ms, hms⟩ := ih e.2 hpart (hwell.part hpart) (Path.isOperatorKey_dotted hkey key) hplace' hd
      exact ⟨d, ms, rfl, hms⟩

/-- A condition with nested objects is accepted only if the flat conditions in it are. Where its nested objects stand
on records it matches exactly when all of these do, and it has an answer when they have. The checks of operands
are told the place too: they do not look at it, or it reads the same for both. -/
theorem matches_iff_flat {key : String} {v : Value} (hkey : isOperatorKey (.text key) = false) (hwell : v.WellMapped)
    (hplace : table.ChecksPurely functions ∨ v.NamedByPaths key) {depth : Value} {n : Node}
    (hn : validate table functions depth (.ofPairs [(key, v)]) = .ok n) :
    ∃ ms, List.Forall₂ (fun c m => validate table functions depth (.ofPairs [c]) = .ok m) (v.leavesFrom key) ms ∧
      ∀ (t : Terms) (record : Value), v.NestsIn key record → ∀ store : PatternStore, store.Sound →
        (((n.matches t table record).runState PatternStore.answer store).1 = .ok true ↔
          ∀ m ∈ ms, ((m.matches t table record).runState PatternStore.answer store).1 = .ok true) ∧
        ((∀ m ∈ ms, ∃ b, ((m.matches t table record).runState PatternStore.answer store).1 = .ok b) →
          ∃ b, ((n.matches t table record).runState PatternStore.answer store).1 = .ok b) := by
  obtain ⟨limit, hlimit, hcheck⟩ := bind_eq_ok.1 hn
  obtain ⟨hleast, c, hc, rfl⟩ := (Grammar.check_field hkey).1 hcheck
  obtain ⟨ms, hms⟩ := exists_flattens hleast hwell hkey (hplace.imp_right fun hnamed => ⟨rfl, hnamed⟩) hc
  refine ⟨ms, hms.accepted.imp fun leaf m hleaf => bind_eq_ok.2 ⟨limit, hlimit, hleaf⟩,
    fun t record hrecord store hstore => ?_⟩
  have hrun (m : Node) : ((m.matches t table record).runState PatternStore.answer store).1 =
      (m.matches t table record).run (compileAnswer store.maxLength) := (hstore.runState _).1
  simp only [hrun]
  rw [Node.matches, hms.matched hrecord]
  exact run_allMatch ms record

end

/-- Two levels of nested objects, with dots in keys, a negated literal and a null. -/
def addressCondition : Value :=
  .ofPairs [("address", .ofPairs [("city", .text "!Rome"), ("zip.code", .null)]),
    ("rooms", .ofPairs [("$gt", .int 2)])]

/-- A mapping with an object with attributes and, in it, a mapping. -/
def addressRecord : Value :=
  .ofPairs [("user", .ofPairs [("home", .record [("rooms", .int 3), ("address", .ofPairs [("city", .text "Oslo")])])])]

theorem matches_iff_flat_address :
    isOperatorKey (.text "user.home") = false ∧ addressCondition.WellMapped ∧
    Table.builtins.ChecksPurely Functions.standard ∧
    addressCondition.NestsIn "user.home" addressRecord ∧ emptyStore.Sound ∧
    ∃ n, validate Table.builtins Functions.standard (.int 3) (.ofPairs [("user.home", addressCondition)]) = .ok n ∧
    ∃ ms, List.Forall₂ (fun c m => validate Table.builtins Functions.standard (.int 3) (.ofPairs [c]) = .ok m)
        [("user.home.address.city", .text "!Rome"), ("user.home.address.zip.code", .null),
          ("user.home.rooms", .ofPairs [("$gt", .int 2)])] ms ∧
      ∀ m ∈ ms, ((m.matches ⟨false, none, lastNoon, Functions.standard⟩ Table.builtins addressRecord).runState
        PatternStore.answer emptyStore).1 = .ok true := by
  have hwell : addressCondition.WellMapped := by
    have htext (s : String) : (Value.text s).WellMapped := Value.wellMapped_atom rfl trivial
    have hnull : Value.null.WellMapped := Value.wellMapped_atom rfl trivial
    have hint (i : Int) : (Value.int i).WellMapped := Value.wellMapped_atom rfl trivial
    refine Value.wellMapped_ofPairs (by decide) (List.forall_mem_cons.2 ⟨?_, List.forall_mem_singleton.2 ?_⟩)
    · refine Value.wellMapped_ofPairs (by decide) ?_
      exact List.forall_mem_cons.2 ⟨htext _, List.forall_mem_singleton.2 hnull⟩
    · exact Value.wellMapped_ofPairs (by decide) (List.forall_mem_singleton.2 (hint 2))
  have hrecord : addressCondition.NestsIn "user.home" addressRecord := by
    unfold Value.NestsIn
    decide
  obtain ⟨n, hn⟩ : ∃ n, validate Table.builtins Functions.standard (.int 3)
      (.ofPairs [("user.home", addressCondition)]) = .ok n := exists_eq_ok rfl
  have hpure := Table.builtins_checksPurely Functions.standard
  obtain ⟨ms, hms, hmatches⟩ := matches_iff_flat rfl hwell (.inl hpure) hn
  obtain ⟨hiff, -⟩ := hmatches ⟨false, none, lastNoon, Functions.standard⟩ addressRecord hrecord _ emptyStore_sound
  refine ⟨rfl, hwell, hpure, hrecord, emptyStore_sound, n, hn, ms, hms, hiff.1 ?_⟩
  obtain rfl := Except.ok.inj (hn.symm.trans rfl)
  rfl

end Winnow
