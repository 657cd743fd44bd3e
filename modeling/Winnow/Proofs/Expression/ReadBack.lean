import Winnow.Proofs.Expression.Entries
import Winnow.Proofs.Operator.Resembling
/-! # Trees read back

The written form of a tree is checked as the tree again, wherever it stands and however deep, as long as the
limit leaves room. `Node.IsEntry` says this of a node that is written as one entry, `Node.IsObject` of a node
that is written as an object, `Condition.IsValue` of a condition. The three carry over from parts to wholes by
the rules that make trees, so they hold of all trees that a check comes to and of all that are composed of
them. `Value.relisted` is the written form of the tree of an expression. -/

namespace Winnow
open Value Outcome

/-! ## Nesting -/

mutual

/-- How many levels a node has: the root has one, and every operand of a junction or a negation and every nested
object is one below. -/
def Node.nesting : Node → Nat
  | .all items true => max 1 (mostNested items)
  | .all items false | .any items => 1 + mostNested items
  | .not item => 1 + item.nesting
  | .field _ condition => 1 + condition.nesting
  | .anyProperty _ | .predicate _ => 1
termination_by structural n => n

def mostNested : List Node → Nat
  | [] => 0
  | n :: ns => max n.nesting (mostNested ns)
termination_by structural ns => ns

/-- How many levels a condition adds to the one that it stands on. -/
def Condition.nesting : Condition → Nat
  | .nested node => node.nesting
  | _ => 0
termination_by structural c => c

end

theorem Node.one_le_nesting (n : Node) : 1 ≤ n.nesting := by
  cases n with
  | all items i => cases i <;> simp [nesting]
  | _ => simp [nesting]

theorem mostNested_le {ns : List Node} {k : Nat} : mostNested ns ≤ k ↔ ∀ n ∈ ns, n.nesting ≤ k := by
  induction ns with
  | nil => simp [mostNested]
  | cons n ns ih => simp [mostNested, ih]

theorem itemValues_eq (ns : List Node) : itemValues ns = ns.map Node.toValue := by
  induction ns with
  | nil => rfl
  | cons n ns ih => rw [itemValues, ih, List.map_cons]

/-! ## Expressions as they are written again -/

mutual

/-- An object as its tree is written: junctions and lists of members are lists, whatever sequences they were. -/
def Value.relisted : Value → Value
  | .object entries => .object (relistedEntries entries)
  | v => v
termination_by structural v => v

def relistedEntries : List (Value × Value) → List (Value × Value)
  | [] => []
  | (k, v) :: rest =>
    let v' :=
      match k with
      | .text key =>
        if key = andKey ∨ key = orKey then v.relistedJunction
        else if key = notKey then v.relisted
        else v.relistedCondition
      | _ => v
    (k, v') :: relistedEntries rest
termination_by structural es => es

/-- The operands of a junction. -/
def Value.relistedJunction : Value → Value
  | .list items | .tuple items => .list (relistedItems items)
  | v => v
termination_by structural v => v

def relistedItems : List Value → List Value
  | [] => []
  | v :: rest => v.relisted :: relistedItems rest
termination_by structural vs => vs

/-- The condition on a field: operands stay as they are. -/
def Value.relistedCondition : Value → Value
  | .object entries =>
    if entries.any fun e => isOperatorKey e.1 then .object entries else .object (relistedEntries entries)
  | .list items | .tuple items => .list items
  | v => v
termination_by structural v => v

end

/-- The value of an entry as it is written again. -/
def relistedPart (e : Value × Value) : Value :=
  match e.1 with
  | .text key =>
    if key = andKey ∨ key = orKey then e.2.relistedJunction
    else if key = notKey then e.2.relisted
    else e.2.relistedCondition
  | _ => e.2

theorem relistedEntries_eq (es : List (Value × Value)) :
    relistedEntries es = es.map fun e => (e.1, relistedPart e) := by
  induction es with
  | nil => rfl
  | cons e es ih =>
    rcases e with ⟨k, v⟩
    rw [List.map_cons, ← ih]
    cases k <;> rfl

/-! ## Nodes and what they are written as -/

section

variable (table : Table) (functions : Functions)

/-- Is the node written as the entry alone, and is the entry checked as the node wherever there is room? -/
structure Node.IsEntry (n : Node) (e : Value × Value) : Prop where
  written : n.toValue = .object [e]
  checked {limit depth : Nat} (hdepth : depth ≤ limit) (path : String) (part : Value) (m : Node) :
    Grammar.nodeOf ⟨table, functions, limit⟩ depth path part e = .ok m ↔ m = n ∧ depth + n.nesting ≤ limit + 1

/-- Is the node written as the entries, and is their object checked as the node wherever there is room? -/
structure Node.IsObject (n : Node) (es : List (Value × Value)) : Prop where
  written : n.toValue = .object es
  checked (limit depth : Nat) (path : String) (part : Value) (m : Node) :
    (Grammar.object ⟨table, functions, limit⟩ depth path part fun _ =>
      Grammar.checkEntries ⟨table, functions, limit⟩ depth path part es) = .ok m ↔
        m = n ∧ depth + n.nesting ≤ limit + 1

/-- Is the condition written as the value, and is the value checked as the condition wherever there is room? -/
structure Condition.IsValue (c : Condition) (v : Value) : Prop where
  written : c.toValue = v
  checked {limit depth : Nat} (hdepth : depth ≤ limit) (path : String) (d : Condition) :
    Grammar.checkCondition ⟨table, functions, limit⟩ depth path v = .ok d ↔ d = c ∧ depth + c.nesting ≤ limit

end

variable {table : Table} {functions : Functions} {es : List (Value × Value)}

/-- Items of which each comes to one result if it meets a condition come to the list of them if all do. -/
theorem Outcome.mapM_eq_ok_of_forall₂ {α β : Type} {f : α → Outcome β} {C : β → Prop} {xs : List α} {ys : List β}
    (h : List.Forall₂ (fun x y => ∀ z, f x = .ok z ↔ z = y ∧ C y) xs ys) (zs : List β) :
    xs.mapM f = .ok zs ↔ zs = ys ∧ ∀ y ∈ ys, C y := by
  induction h generalizing zs with
  | nil => simp [eq_comm]
  | cons hxy _ ih =>
    simp only [List.mapM_cons, bind_eq_ok, hxy, ih, pure_eq, Except.ok.injEq, List.forall_mem_cons]
    constructor
    · rintro ⟨y, ⟨rfl, hy⟩, ys, ⟨rfl, hys⟩, rfl⟩
      exact ⟨rfl, hy, hys⟩
    · rintro ⟨rfl, hy, hys⟩
      exact ⟨_, ⟨rfl, hy⟩, _, ⟨rfl, hys⟩, rfl⟩

/-! ## Entries together -/

theorem mergeEntries_singletons {done : List (Value × Value)} (h : KeysApart (done ++ es)) :
    (es.map fun e => Value.object [e]).foldl (fun entries m => Value.update entries (entriesOf m)) done =
      done ++ es := by
  induction es generalizing done with
  | nil => simp
  | cons e es ih =>
    have hnew : Value.update done (entriesOf (.object [e])) = done ++ [e] := h.insert e.2
    rw [List.map_cons, List.foldl_cons, hnew, ih (by simpa using h), List.append_assoc, List.singleton_append]

theorem conjunction_nesting (ns : List Node) {depth limit : Nat} :
    depth + (Grammar.conjunction ns).nesting ≤ limit + 1 ↔
      depth ≤ limit ∧ ∀ n ∈ ns, depth + n.nesting ≤ limit + 1 := by
  have hall (ns : List Node) : depth + (Node.all ns true).nesting ≤ limit + 1 ↔
      depth ≤ limit ∧ ∀ n ∈ ns, depth + n.nesting ≤ limit + 1 := by
    have hroom (n : Node) : depth + n.nesting ≤ limit + 1 ↔ n.nesting ≤ limit + 1 - depth ∧ depth ≤ limit := by
      have := n.one_le_nesting
      omega
    rw [hroom, Node.nesting, Nat.max_le, mostNested_le]
    constructor
    · rintro ⟨⟨-, hns⟩, hdepth⟩
      exact ⟨hdepth, fun n hn => (hroom n).2 ⟨hns n hn, hdepth⟩⟩
    · rintro ⟨hdepth, hns⟩
      exact ⟨⟨by omega, fun n hn => ((hroom n).1 (hns n hn)).1⟩, hdepth⟩
  rcases ns with _ | ⟨n, _ | ⟨m, ns⟩⟩
  · exact hall []
  · have := n.one_le_nesting
    simp only [Grammar.conjunction, List.mem_singleton, forall_eq]
    omega
  · exact hall _

/-- Nodes of entries make the node of their object. -/
theorem Node.IsObject.conjunction {ns : List Node} (h : List.Forall₂ (Node.IsEntry table functions) ns es)
    (hkeys : KeysApart es) : (Grammar.conjunction ns).IsObject table functions es := by
  have hwritten : (Node.all ns true).toValue = .object es := by
    have hitems : itemValues ns = es.map fun e => Value.object [e] := by
      rw [itemValues_eq]
      exact map_eq_of_forall₂ h fun _ _ _ _ hentry => hentry.written
    rw [Node.toValue, hitems]
    exact congrArg Value.object (mergeEntries_singletons hkeys)
  refine ⟨?_, fun limit depth path part m => ?_⟩
  · rcases h with _ | ⟨hentry, _ | _⟩
    · exact hwritten
    · exact hentry.written
    · exact hwritten
  · rw [conjunction_nesting, Grammar.object]
    split
    · next hdeep => simp [hdeep, Grammar.reject]
    · next hdepth =>
      have hdepth := Nat.le_of_not_lt hdepth
      have hnodes := Outcome.mapM_eq_ok_of_forall₂ (h.flip.imp fun _ _ hentry => hentry.checked hdepth path part)
      simp only [Grammar.checkEntries_eq, map_eq_ok, hnodes]
      constructor
      · rintro ⟨_, ⟨rfl, hns⟩, rfl⟩
        exact ⟨rfl, hdepth, hns⟩
      · rintro ⟨rfl, -, hns⟩
        exact ⟨ns, ⟨rfl, hns⟩, rfl⟩

theorem Node.IsEntry.isObject {n : Node} {e : Value × Value} (h : n.IsEntry table functions e) :
    n.IsObject table functions [e] := .conjunction (.cons h .nil) (List.pairwise_singleton ..)

/-! ## Junctions and negations -/

theorem checkItems_eq_ok {ns : List Node} {ess : List (List (Value × Value))}
    (h : List.Forall₂ (Node.IsObject table functions) ns ess) (limit : Nat) (key : String) (depth : Nat)
    (path : String) (place : Nat) {ms : List Node} :
    Grammar.checkItems ⟨table, functions, limit⟩ key depth path place (ess.map .object) = .ok ms ↔
      ms = ns ∧ ∀ n ∈ ns, depth + 1 + n.nesting ≤ limit + 1 := by
  induction h generalizing place ms with
  | nil => simp [Grammar.checkItems, eq_comm]
  | cons hobject _ ih =>
    simp only [List.map_cons, Grammar.checkItems, bind_eq_ok, hobject.checked, ih, pure_eq, Except.ok.injEq,
      List.forall_mem_cons]
    constructor
    · rintro ⟨n, ⟨rfl, hn⟩, ns, ⟨rfl, hns⟩, rfl⟩
      exact ⟨rfl, hn, hns⟩
    · rintro ⟨rfl, hn, hns⟩
      exact ⟨_, ⟨rfl, hn⟩, _, ⟨rfl, hns⟩, rfl⟩

theorem junction_toValue {key : String} (hkey : key = andKey ∨ key = orKey) (ns : List Node) :
    (Grammar.junction key ns).toValue = .object [(.text key, .list (ns.map Node.toValue))] := by
  rcases hkey with rfl | rfl
  · rw [← itemValues_eq]; rfl
  · rw [← itemValues_eq]; rfl

theorem junction_nesting (key : String) (ns : List Node) :
    (Grammar.junction key ns).nesting = 1 + mostNested ns := by
  unfold Grammar.junction
  split <;> rfl

theorem Node.IsEntry.junction {key : String} (hkey : key = andKey ∨ key = orKey) {ns : List Node}
    {ess : List (List (Value × Value))} (h : List.Forall₂ (Node.IsObject table functions) ns ess) :
    (Grammar.junction key ns).IsEntry table functions (.text key, .list (ess.map .object)) := by
  refine ⟨?_, fun {limit depth} hdepth path part m => ?_⟩
  · rw [junction_toValue hkey, map_eq_of_forall₂ h fun _ _ _ _ hobject => hobject.written]
  · have hroom : depth + (1 + mostNested ns) ≤ limit + 1 ↔ ∀ n ∈ ns, depth + 1 + n.nesting ≤ limit + 1 := by
      rw [show depth + (1 + mostNested ns) ≤ limit + 1 ↔ mostNested ns ≤ limit - depth by omega, mostNested_le]
      exact forall₂_congr fun n _ => by omega
    simp only [Grammar.nodeOf, if_pos hkey, Grammar.checkJunction, map_eq_ok, checkItems_eq_ok h, junction_nesting,
      hroom]
    constructor
    · rintro ⟨_, ⟨rfl, hns⟩, rfl⟩
      exact ⟨rfl, hns⟩
    · rintro ⟨rfl, hns⟩
      exact ⟨ns, ⟨rfl, hns⟩, rfl⟩

theorem Node.IsEntry.not {n : Node} (h : n.IsObject table functions es) :
    (Node.not n).IsEntry table functions (.text notKey, .object es) := by
  refine ⟨?_, fun {limit depth} hdepth path part m => ?_⟩
  · rw [Node.toValue, h.written]
    rfl
  · have hkey : ¬ (notKey = andKey ∨ notKey = orKey) := by decide
    simp only [Grammar.nodeOf, if_neg hkey, if_true, Grammar.checkNot, map_eq_ok, h.checked, Node.nesting]
    constructor
    · rintro ⟨_, ⟨rfl, hn⟩, rfl⟩
      exact ⟨rfl, by omega⟩
    · rintro ⟨rfl, hn⟩
      exact ⟨n, ⟨rfl, by omega⟩, rfl⟩

/-! ## Conditions -/

theorem Node.IsEntry.field {key : String} (hkey : isOperatorKey (.text key) = false) {c : Condition} {v : Value}
    (h : c.IsValue table functions v) : (Node.field key c).IsEntry table functions (.text key, v) := by
  have hplain (k : String) (hk : isOperatorKey (.text k) = true) : key ≠ k := by
    rintro rfl
    rw [hkey] at hk
    cases hk
  refine ⟨?_, fun {limit depth} hdepth path part m => ?_⟩
  · rw [Node.toValue, h.written]
    rfl
  · have hjunction : ¬ (key = andKey ∨ key = orKey) := not_or.2 ⟨hplain _ (by decide), hplain _ (by decide)⟩
    simp only [Grammar.nodeOf, if_neg hjunction, if_neg (hplain notKey (by decide)), hkey, Bool.false_eq_true,
      if_false, map_eq_ok, h.checked hdepth, Node.nesting]
    constructor
    · rintro ⟨_, ⟨rfl, hc⟩, rfl⟩
      exact ⟨rfl, by omega⟩
    · rintro ⟨rfl, hc⟩
      exact ⟨c, ⟨rfl, by omega⟩, rfl⟩

theorem Condition.IsValue.nested {n : Node} (h : n.IsObject table functions es)
    (hkeys : ∀ e ∈ es, isOperatorKey e.1 = false) :
    (Condition.nested n).IsValue table functions (.object es) := by
  refine ⟨?_, fun {limit depth} hdepth path d => ?_⟩
  · rw [Condition.toValue, h.written]
  · have hnone : (es.map (·.1)).filter isOperatorKey = [] := by
      simpa [List.filter_eq_nil_iff] using fun k v hmem => hkeys (k, v) hmem
    simp only [Grammar.checkCondition, hnone, List.isEmpty_nil, Bool.not_true, Bool.false_and, Bool.false_eq_true,
      if_false, map_eq_ok, h.checked, Condition.nesting]
    constructor
    · rintro ⟨_, ⟨rfl, hn⟩, rfl⟩
      exact ⟨rfl, by omega⟩
    · rintro ⟨rfl, hn⟩
      exact ⟨n, ⟨rfl, by omega⟩, rfl⟩

/-! ## Maps of operators -/

/-- Is it the operand alone that custom operators check? Where it stands is for their messages. -/
def Table.ChecksPurely (table : Table) (functions : Functions) : Prop :=
  ∀ o ∈ table.operators, ∀ c, o.check = .custom c → ∀ operand path path' result,
    functions c (.check operand path) = .ok result → functions c (.check operand path') = .ok result

/-- No operator of the built-in table is checked by a function of the user's. -/
theorem Table.builtins_checksPurely (functions : Functions) : Table.builtins.ChecksPurely functions := by
  intro o ho c hc
  have hbuiltin : ∀ o ∈ Table.builtins.operators, o.check = .anything ∨ ∃ b, o.check = .builtin b := by
    simp [Table.builtins, Table.builtinOperators, OperatorInfo.ofBuiltin, OperatorInfo.logical]
  rcases hbuiltin o ho with h | ⟨b, h⟩
  · rw [hc] at h
    cases h
  · rw [hc] at h
    cases h

/-- The tests of a map of operators are written as the map. -/
theorem testsValue_of_checkTests {g : Grammar} {map : Value} {path : String} {ts : List Test}
    (h : Grammar.checkTests g map path es = .ok ts) (hkeys : ∀ e ∈ es, isOperatorKey e.1 = true) :
    testsValue ts = .object es := by
  rw [Grammar.checkTests_eq, mapM_eq_ok] at h
  refine congrArg Value.object ?_
  rw [List.map_map]
  conv_rhs => rw [← List.map_id es]
  refine (map_eq_of_forall₂ h fun e he test _ htest => ?_).symm
  obtain ⟨k, operand⟩ := e
  have hkey := hkeys _ he
  cases k with
  | text key =>
    unfold Grammar.testOf at htest
    split at htest
    · next hnot =>
      obtain ⟨c, -, rfl⟩ := map_eq_ok.1 htest
      exact congrArg (fun key => (Value.text key, operand)) hnot
    · unfold Grammar.checkTest at htest
      obtain ⟨info, -, htest⟩ := bind_eq_ok.1 htest
      split at htest
      · cases htest
      · obtain ⟨o, -, htest⟩ := bind_eq_ok.1 htest
        cases htest
        rfl
  | _ => cases hkey

section

variable (hpure : table.ChecksPurely functions)
include hpure

theorem checkOperand_elsewhere {o : OperatorInfo} (ho : o ∈ table.operators) {v : Value} (hv : v.WellMapped)
    (path path' : String) : Follows Eq (o.checkOperand functions v path) (o.checkOperand functions v path') := by
  unfold OperatorInfo.checkOperand
  cases hcheck : o.check with
  | anything => exact .ok rfl
  | builtin b => exact b.check_elsewhere hv path path'
  | custom c =>
    have hsame : Follows Eq (functions c (.check v path)) (functions c (.check v path')) :=
      .of_forall fun result h => ⟨result, hpure o ho c hcheck v path path' result h, rfl⟩
    exact hsame.map fun _ _ => congrArg Operand.value

variable (limit limit' : Nat)

theorem checkTest_elsewhere {v : Value} (hv : v.WellMapped) (map map' : Value) (key path path' : String) :
    Follows Eq (Grammar.checkTest ⟨table, functions, limit⟩ map key v path)
      (Grammar.checkTest ⟨table, functions, limit'⟩ map' key v path') := by
  unfold Grammar.checkTest Table.lookup
  rcases hfind : table.find? key with _ | info
  · exact .error _ _
  simp only [Outcome.ok_bind]
  by_cases hstructural : info.structural = true
  · rw [if_pos hstructural]
    exact .error _ _
  · rw [if_neg hstructural, if_neg hstructural]
    refine .bind (checkOperand_elsewhere hpure (List.mem_of_find?_eq_some hfind) hv path path') fun o o' ho => ?_
    exact .ok (congrArg (Test.apply key · v) ho)

theorem checkTests_elsewhere_of (hes : ∀ e ∈ es, e.2.WellMapped ∧ ∀ path path',
      Follows Eq (Grammar.checkNegated ⟨table, functions, limit⟩ e.2 path)
        (Grammar.checkNegated ⟨table, functions, limit'⟩ e.2 path'))
    (map map' : Value) (path path' : String) :
    Follows Eq (Grammar.checkTests ⟨table, functions, limit⟩ map path es)
      (Grammar.checkTests ⟨table, functions, limit'⟩ map' path' es) := by
  rw [Grammar.checkTests_eq, Grammar.checkTests_eq]
  refine Follows.mono (.mapM (R := Eq) (List.forall₂_same.2 fun _ _ => rfl) fun e he f hef => ?_)
    fun _ _ h => List.forall₂_eq_eq_eq ▸ h
  subst hef
  obtain ⟨hv, hnegated⟩ := hes e he
  unfold Grammar.testOf
  refine .ite Iff.rfl ?_ (checkTest_elsewhere hpure limit limit' hv map map' _ _ _)
  exact (hnegated _ _).map fun c d hcd => congrArg (Test.negate · e.2) hcd

/-- The operand of a negation is checked alike wherever it stands. -/
theorem checkNegated_elsewhere {v : Value} (hv : v.WellMapped) (path path' : String) :
    Follows Eq (Grammar.checkNegated ⟨table, functions, limit⟩ v path)
      (Grammar.checkNegated ⟨table, functions, limit'⟩ v path') := by
  induction v using Value.induction generalizing path path' with
  | step v ih =>
    cases v with
    | list items | tuple items => exact .error _ _
    | object es =>
      rw [Grammar.checkNegated, Grammar.checkNegated]
      refine .ite Iff.rfl (.error _ _) (.map ?_ fun _ _ => congrArg Condition.tests)
      refine checkTests_elsewhere_of hpure limit limit' (fun e he => ?_) _ _ _ _
      have hpart := (mem_parts_object he).2
      exact ⟨hv.part hpart, fun path path' => ih _ hpart (hv.part hpart) path path'⟩
    | _ => exact .ok rfl

/-- A map of operators is checked alike wherever it stands. -/
theorem checkTests_elsewhere (hes : (Value.object es).WellMapped) (map map' : Value) (path path' : String) :
    Follows Eq (Grammar.checkTests ⟨table, functions, limit⟩ map path es)
      (Grammar.checkTests ⟨table, functions, limit'⟩ map' path' es) := by
  refine checkTests_elsewhere_of hpure limit limit' (fun e he => ?_) _ _ _ _
  have hpart := hes.part (mem_parts_object he).2
  exact ⟨hpart, checkNegated_elsewhere hpure limit limit' hpart⟩

end

theorem Condition.IsValue.tests (hpure : table.ChecksPurely functions) (hes : (Value.object es).WellMapped)
    (hne : es ≠ []) (hkeys : ∀ e ∈ es, isOperatorKey e.1 = true) {limit : Nat} {map : Value} {path : String}
    {ts : List Test} (h : Grammar.checkTests ⟨table, functions, limit⟩ map path es = .ok ts) :
    (Condition.tests ts).IsValue table functions (.object es) := by
  refine ⟨testsValue_of_checkTests h hkeys, fun {limit' depth} hdepth path' d => ?_⟩
  have hall : (es.map (·.1)).filter isOperatorKey = es.map (·.1) := by
    rw [List.filter_eq_self]
    exact List.forall_mem_map.2 hkeys
  have hsome : (es.map (·.1)).isEmpty = false := by simpa using hne
  obtain ⟨_, hts, rfl⟩ := (checkTests_elsewhere hpure limit limit' hes map (.object es) path path').exists_ok h
  simp only [Grammar.checkCondition, hall, hsome, bne_self_eq_false, Bool.and_false, Bool.not_false,
    Bool.false_eq_true, if_false, if_true, hts, Outcome.map_ok, Except.ok.injEq, Condition.nesting]
  exact ⟨fun h => ⟨h.symm, hdepth⟩, fun h => h.1.symm⟩

@[simp] theorem Literal.raw_parse (v : Value) : (Literal.parse v).raw = v := by
  cases v <;> rfl

@[simp] theorem Literal.raw_parseMember (v : Value) : (Literal.parseMember v).raw = v := by
  cases v <;> rfl

theorem Condition.IsValue.members (items : List Value) :
    (Condition.anyOf (items.map .parseMember)).IsValue table functions (.list items) := by
  refine ⟨?_, fun {limit depth} hdepth path d => ?_⟩
  · simp [Condition.toValue, Function.comp_def]
  · simp [Grammar.checkCondition, Condition.nesting, hdepth, eq_comm]

theorem Condition.IsValue.literal {v : Value}
    (hv : ∀ g depth path, Grammar.checkCondition g depth path v = .ok (.literal (.parse v))) :
    (Condition.literal (.parse v)).IsValue table functions v := by
  refine ⟨?_, fun {limit depth} hdepth path d => ?_⟩
  · rw [Condition.toValue, Literal.raw_parse]
  · simp [hv, Condition.nesting, hdepth, eq_comm]

/-! ## What checks come to -/

/-- Do the trees that checks make of the value have what is relisted of it for a written form? -/
structure ReadsBack (table : Table) (functions : Functions) (v : Value) : Prop where
  junction {limit depth : Nat} {key path : String} {n : Node} (hkey : key = andKey ∨ key = orKey)
    (h : Grammar.checkJunction ⟨table, functions, limit⟩ key depth path v = .ok n) :
    n.IsEntry table functions (.text key, v.relistedJunction)
  not {limit depth : Nat} {path : String} {n : Node}
    (h : Grammar.checkNot ⟨table, functions, limit⟩ depth path v = .ok n) :
    n.IsEntry table functions (.text notKey, v.relisted)
  condition {limit depth : Nat} {path : String} {c : Condition}
    (h : Grammar.checkCondition ⟨table, functions, limit⟩ depth path v = .ok c) :
    c.IsValue table functions v.relistedCondition
  object {es : List (Value × Value)} (hv : v = .object es) {limit depth : Nat} {path : String} {part : Value}
    {n : Node} (h : (Grammar.object ⟨table, functions, limit⟩ depth path part fun _ =>
      Grammar.checkEntries ⟨table, functions, limit⟩ depth path part es) = .ok n) :
    n.IsObject table functions (relistedEntries es)

variable {limit depth : Nat} {path : String} {part : Value}

theorem isEntry_of_nodeOf {e : Value × Value} {n : Node} (he : ReadsBack table functions e.2)
    (h : Grammar.nodeOf ⟨table, functions, limit⟩ depth path part e = .ok n) :
    n.IsEntry table functions (e.1, relistedPart e) := by
  obtain ⟨k, v⟩ := e
  cases k with
  | text key =>
    unfold Grammar.nodeOf at h
    unfold relistedPart
    dsimp only at h ⊢
    split at h
    · next hkey =>
      rw [if_pos hkey]
      exact he.junction hkey h
    next hkey =>
    rw [if_neg hkey]
    split at h
    · next hnot =>
      rw [if_pos hnot, hnot]
      exact he.not h
    next hnot =>
    rw [if_neg hnot]
    split at h
    · obtain ⟨info, -, h⟩ := bind_eq_ok.1 h
      cases h
    · next hfield =>
      obtain ⟨c, hc, rfl⟩ := map_eq_ok.1 h
      exact .field (Bool.not_eq_true _ ▸ hfield) (he.condition hc)
  | _ => cases h

theorem isObject_of_entries {n : Node} (hes : ∀ e ∈ es, ReadsBack table functions e.2) (hkeys : KeysApart es)
    (h : (Grammar.object ⟨table, functions, limit⟩ depth path part fun _ =>
      Grammar.checkEntries ⟨table, functions, limit⟩ depth path part es) = .ok n) :
    n.IsObject table functions (relistedEntries es) := by
  unfold Grammar.object at h
  split at h
  · cases h
  obtain ⟨ns, hns, rfl⟩ := map_eq_ok.1 h
  rw [Grammar.checkEntries_eq, mapM_eq_ok] at hns
  rw [relistedEntries_eq]
  refine .conjunction ?_ ?_
  · rw [List.forall₂_map_right_iff]
    exact .flip (forall₂_imp_of_mem hns fun e he n _ hn => isEntry_of_nodeOf (hes e he) hn)
  · rw [keysApart_iff, List.map_map]
    exact keysApart_iff.1 hkeys

theorem isObject_of_items {key : String} {place : Nat} {xs : List Value} {ns : List Node}
    (hxs : ∀ x ∈ xs, ReadsBack table functions x)
    (h : Grammar.checkItems ⟨table, functions, limit⟩ key depth path place xs = .ok ns) :
    ∃ ess, relistedItems xs = ess.map .object ∧ List.Forall₂ (Node.IsObject table functions) ns ess := by
  induction xs generalizing place ns with
  | nil =>
    cases h
    exact ⟨[], rfl, .nil⟩
  | cons x xs ih =>
    obtain ⟨hx, htail⟩ := List.forall_mem_cons.1 hxs
    cases x with
    | object es =>
      rw [Grammar.checkItems] at h
      obtain ⟨n, hn, h⟩ := bind_eq_ok.1 h
      obtain ⟨ms, hms, h⟩ := bind_eq_ok.1 h
      cases h
      obtain ⟨ess, hess, hobjects⟩ := ih htail hms
      refine ⟨relistedEntries es :: ess, ?_, .cons (hx.object rfl hn) hobjects⟩
      rw [relistedItems, Value.relisted, hess, List.map_cons]
    | _ => cases h

theorem readsBack_of_items {items : List Value} {v : Value} (hitems : ∀ x ∈ items, ReadsBack table functions x)
    (hv : v = .list items ∨ v = .tuple items) : ReadsBack table functions v := by
  have hjunction {limit depth : Nat} {key path : String} {n : Node} (hkey : key = andKey ∨ key = orKey)
      (h : (Grammar.checkItems ⟨table, functions, limit⟩ key depth path 0 items).map (Grammar.junction key) = .ok n) :
      n.IsEntry table functions (.text key, .list (relistedItems items)) := by
    obtain ⟨ns, hns, rfl⟩ := map_eq_ok.1 h
    obtain ⟨ess, hess, hobjects⟩ := isObject_of_items hitems hns
    rw [hess]
    exact .junction hkey hobjects
  have hmembers {c : Condition} (h : (.ok (.anyOf (items.map .parseMember)) : Outcome Condition) = .ok c) :
      c.IsValue table functions (.list items) := by
    cases h
    exact .members items
  rcases hv with rfl | rfl <;>
    exact ⟨hjunction, fun h => (by cases h), hmembers, fun h => (by cases h)⟩

theorem readsBack_of_entries (hpure : table.ChecksPurely functions) (hwell : (Value.object es).WellMapped)
    (hes : ∀ e ∈ es, ReadsBack table functions e.2) : ReadsBack table functions (.object es) := by
  have hobject {limit depth : Nat} {path : String} {part : Value} {n : Node}
      (h : (Grammar.object ⟨table, functions, limit⟩ depth path part fun _ =>
        Grammar.checkEntries ⟨table, functions, limit⟩ depth path part es) = .ok n) :
      n.IsObject table functions (relistedEntries es) := isObject_of_entries hes hwell.here.2 h
  refine ⟨fun _ h => (by cases h), fun {limit depth path n} h => ?_, fun {limit depth path c} h => ?_,
    fun {es'} hv {limit depth path part n} h => ?_⟩
  · rw [Grammar.checkNot] at h
    obtain ⟨m, hm, rfl⟩ := map_eq_ok.1 h
    exact .not (hobject hm)
  · rw [Grammar.checkCondition] at h
    rw [Value.relistedCondition]
    split at h
    · cases h
    next hmixed =>
    split at h
    · next hsome =>
      obtain ⟨ts, hts, rfl⟩ := map_eq_ok.1 h
      have hall : ∀ e ∈ es, isOperatorKey e.1 = true := by
        rw [hsome, Bool.true_and, bne_iff_ne, not_not, List.length_filter_eq_length_iff] at hmixed
        exact List.forall_mem_map.1 hmixed
      obtain ⟨e, he⟩ : ∃ e, e ∈ es := by
        refine List.exists_mem_of_ne_nil es ?_
        rintro rfl
        cases hsome
      rw [if_pos (List.any_eq_true.2 ⟨e, he, hall e he⟩)]
      exact .tests hpure hwell (List.ne_nil_of_mem he) hall hts
    · next hnone =>
      obtain ⟨m, hm, rfl⟩ := map_eq_ok.1 h
      have hplain : ∀ e ∈ es, isOperatorKey e.1 = false := by
        simpa [List.filter_eq_nil_iff] using hnone
      have hkeys : ∀ e ∈ relistedEntries es, isOperatorKey e.1 = false := by
        rw [relistedEntries_eq]
        exact List.forall_mem_map.2 hplain
      rw [if_neg (by simpa using hplain)]
      exact .nested (hobject hm) hkeys
  · cases hv
    exact hobject h

theorem readsBack (hpure : table.ChecksPurely functions) {v : Value} (hv : v.WellMapped) :
    ReadsBack table functions v := by
  induction v using Value.induction with
  | step v ih =>
    have hparts : ∀ u ∈ v.parts, ReadsBack table functions u := fun u hu => ih u hu (hv.part hu)
    cases v with
    | list items => exact readsBack_of_items hparts (.inl rfl)
    | tuple items => exact readsBack_of_items hparts (.inr rfl)
    | object es => exact readsBack_of_entries hpure hv fun e he => hparts _ (mem_parts_object he).2
    | _ =>
      refine ⟨fun _ h => (by cases h), fun h => (by cases h), fun h => ?_, fun h => (by cases h)⟩
      cases h
      exact .literal fun _ _ _ => rfl

/-! ## Compositions -/

/-- Is the node composed of nodes with the property? -/
inductive Node.ComposedOf (P : Node → Prop) : Node → Prop
  | base {n : Node} (h : P n) : ComposedOf P n
  | and {a b : Node} (ha : ComposedOf P a) (hb : ComposedOf P b) : ComposedOf P (a.and b)
  | or {a b : Node} (ha : ComposedOf P a) (hb : ComposedOf P b) : ComposedOf P (a.or b)
  | not {n : Node} (h : ComposedOf P n) : ComposedOf P (.not n)

theorem Node.ComposedOf.isObject {P : Node → Prop} {n : Node} (hP : ∀ n, P n → ∃ es, n.IsObject table functions es)
    (h : n.ComposedOf P) : ∃ es, n.IsObject table functions es := by
  induction h with
  | base h => exact hP _ h
  | and _ _ iha ihb =>
    obtain ⟨es, ha⟩ := iha
    obtain ⟨fs, hb⟩ := ihb
    exact ⟨_, (IsEntry.junction (.inl rfl) (.cons ha (.cons hb .nil))).isObject⟩
  | or _ _ iha ihb =>
    obtain ⟨es, ha⟩ := iha
    obtain ⟨fs, hb⟩ := ihb
    exact ⟨_, (IsEntry.junction (.inr rfl) (.cons ha (.cons hb .nil))).isObject⟩
  | not _ ih =>
    obtain ⟨es, h⟩ := ih
    exact ⟨_, (IsEntry.not h).isObject⟩

/-! ## Validation -/

/-- Is the node what a check makes of an expression that is an object? -/
def Node.IsAccepted (table : Table) (functions : Functions) (n : Node) : Prop :=
  ∃ depth es, (Value.object es).WellMapped ∧ validate table functions depth (.object es) = .ok n

theorem isObject_of_validate (hpure : table.ChecksPurely functions) (hes : (Value.object es).WellMapped)
    {depth : Value} {n : Node} (h : validate table functions depth (.object es) = .ok n) :
    n.IsObject table functions (relistedEntries es) := by
  obtain ⟨limit, -, h⟩ := bind_eq_ok.1 h
  exact (readsBack hpure hes).object rfl h

theorem validate_toValue_iff {n : Node} (h : n.IsObject table functions es) (depth : Value) (m : Node) :
    validate table functions depth n.toValue = .ok m ↔
      m = n ∧ ∃ limit, readMaxDepth depth = .ok limit ∧ n.nesting ≤ limit := by
  have hcheck (limit : Nat) : Grammar.check ⟨table, functions, limit⟩ (.object es) = .ok m ↔
      m = n ∧ n.nesting ≤ limit := by
    rw [show n.nesting ≤ limit ↔ 1 + n.nesting ≤ limit + 1 by omega]
    exact h.checked limit 1 "" (.object es) m
  rw [h.written]
  simp only [validate, bind_eq_ok, hcheck]
  constructor
  · rintro ⟨limit, hlimit, hm, hroom⟩
    exact ⟨hm, limit, hlimit, hroom⟩
  · rintro ⟨hm, limit, hlimit, hroom⟩
    exact ⟨limit, hlimit, hm, hroom⟩

/-- Every tree composed of the trees of accepted objects is read back from its written form: no limit lets another
tree come of it, and a limit lets it through when there is room for its levels. The tree of one object is written
as the object with its sequences in lists. -/
theorem validate_toValue (hpure : table.ChecksPurely functions) :
    (∀ n, n.ComposedOf (Node.IsAccepted table functions) →
      (∀ depth m, validate table functions depth n.toValue = .ok m → m = n) ∧
      ∀ d : Nat, d ≤ 10 → n.nesting ≤ d → validate table functions (.int d) n.toValue = .ok n) ∧
    ∀ depth es n, (Value.object es).WellMapped → validate table functions depth (.object es) = .ok n →
      n.toValue = (Value.object es).relisted := by
  refine ⟨fun n hn => ?_, fun depth es n hes h => (isObject_of_validate hpure hes h).written⟩
  obtain ⟨es, hobject⟩ := hn.isObject fun n ⟨depth, es, hes, h⟩ => ⟨_, isObject_of_validate hpure hes h⟩
  refine ⟨fun depth m h => ((validate_toValue_iff hobject depth m).1 h).1, fun d hd hroom => ?_⟩
  have hlimit := readMaxDepth_natCast (n.one_le_nesting.trans hroom) hd
  exact (validate_toValue_iff hobject _ n).2 ⟨rfl, d, hlimit, hroom⟩

/-- A table with one operator, which takes positive operands. -/
def positiveTable : Table :=
  ⟨[Table.Custom.info { name := "$pos", function := .function "always", check := some (.function "check_pos") }], 1⟩

/-- A query with an operator of the table and with tuples where lists may stand. -/
def positiveQuery : List (Value × Value) :=
  entriesOf (.ofPairs
    [("f", .ofPairs [("$pos", .int 1)]), (orKey, .tuple [.ofPairs [("g", .tuple [.int 1, .int 2])]])])

theorem positiveTable_checksPurely : positiveTable.ChecksPurely Functions.standard := by
  refine List.forall_mem_singleton.2 fun c hc operand path path' result h => ?_
  cases hc
  exact h

theorem positiveQuery_wellMapped : (Value.object positiveQuery).WellMapped := by
  have hint (i : Int) : (Value.int i).WellMapped := wellMapped_atom rfl trivial
  refine wellMapped_ofPairs (by decide) ?_
  simp only [List.forall_mem_cons, List.not_mem_nil, false_implies, implies_true, and_true]
  constructor
  · exact wellMapped_ofPairs (by decide) (List.forall_mem_singleton.2 (hint 1))
  · refine throughout_tuple.2 ⟨trivial, List.forall_mem_singleton.2 (wellMapped_ofPairs (by decide) ?_)⟩
    refine List.forall_mem_singleton.2 (throughout_tuple.2 ⟨trivial, ?_⟩)
    simp [hint]

theorem validate_toValue_tuples :
    ∃ n, validate positiveTable Functions.standard (.int 3) (.object positiveQuery) = .ok n ∧
      validate positiveTable Functions.standard (.int 4) (n.and n.not).toValue = .ok (n.and n.not) ∧
      n.toValue = (Value.object positiveQuery).relisted := by
  obtain ⟨hcomposed, hsingle⟩ := validate_toValue positiveTable_checksPurely
  refine ⟨_, rfl, ?_, hsingle (.int 3) positiveQuery _ positiveQuery_wellMapped rfl⟩
  have hbase := Node.ComposedOf.base (P := Node.IsAccepted positiveTable Functions.standard)
    ⟨.int 3, positiveQuery, positiveQuery_wellMapped, rfl⟩
  exact (hcomposed _ (.and hbase (.not hbase))).2 4 (by decide) (by decide)

end Winnow
