import Winnow.Proofs.Expression.Compared
import Winnow.Proofs.Expression.Entries
import Winnow.Proofs.Expression.Rejection
import Winnow.Proofs.Operator.Resembling
import Winnow.Proofs.Transport.Arrived
/-! # Queries after a journey

An expression that is sent and received arrives with lists in the place of its tuples and sets. Where all values
that it compares with arrive as they are, it is accepted as before, as a tree that differs in the operands as
written alone. -/

namespace Winnow
open Value

variable {v : Value}

/-! ## Operands -/

/-- An operand that is accepted and of which the values that are compared with stay is accepted on arrival, for
the same operand as used. -/
theorem Builtin.check_arrived {b : Builtin} {path : String} {o : Operand} (hv : v.Throughout Keyed)
    (h : b.check v path = .ok o) (ho : o.Compares Stays) : b.check v.arrived path = .ok o := by
  have hsame (hstay : v.Stays) : b.check v.arrived path = .ok o := by
    rw [show v.arrived = v from hstay]
    exact h
  have hresembles := resembles_arrived hv
  have hwell := wellMapped_of_keyed hv
  have hfollows {x y : Outcome Operand} (hxy : Outcome.Follows Eq x y) (hx : x = .ok o) : y = .ok o := by
    obtain ⟨o', hy, rfl⟩ := hxy.exists_ok hx
    exact hy
  have hitems (items : List Value) (hstay : ∀ x ∈ items, x.Stays) : items.map arrived = items :=
    map_eq_self_iff.2 hstay
  cases b with
  | eq | ne | contains =>
    cases h
    exact hsame ho
  | gt | gte | lt | lte =>
    cases v with
    | moment m =>
      cases h
      exact hsame ho
    | int | float | text | date => exact h
    | _ => cases h
  | isBefore | isAfter =>
    cases v with
    | moment m =>
      cases h
      exact hsame ho
    | date => exact h
    | _ => cases h
  | isPresent | isWeekday | isWeekend =>
    cases v with
    | bool => exact h
    | _ => cases h
  | size =>
    cases v with
    | int => exact h
    | _ => cases h
  | startsWith | endsWith =>
    cases v with
    | text => exact h
    | _ => cases h
  | regex | search =>
    cases v with
    | text | pattern => exact h
    | _ => cases h
  | isIn | notIn | all =>
    cases v with
    | list items =>
      cases h
      rw [arrived_list, hitems items ho]
      rfl
    | tuple items =>
      cases h
      rw [arrived_tuple, hitems items ho]
      rfl
    | set items =>
      cases h
      rw [arrived_set, hitems items ho]
      rfl
    | _ => cases h
  | near => exact hfollows (Operand.Site.vicinity_follows hresembles hwell) h
  | geoBox => exact hfollows (Operand.Site.box_follows hresembles hwell) h
  | geoPolygon => exact hfollows (Operand.Site.polygon_follows hresembles hwell) h
  | recent | upcoming => exact hfollows (Operand.Site.relativeTime_follows hresembles hwell) h
  | dayOfWeek => exact hfollows (Operand.Site.dayOfWeek_follows hresembles) h
  | timeOfDay => exact hfollows (Operand.Site.timeOfDay_follows hresembles hwell) h
  | age => exact hfollows (Operand.Site.ageRange_follows hresembles hwell) h

/-! ## Literals -/

theorem Literal.parse_value (v : Value) : (parse v).value = v ∨ ∃ s, v = .text s := by
  cases v with
  | text s => exact .inr ⟨s, rfl⟩
  | _ => exact .inl rfl

theorem Literal.parseMember_value (v : Value) : (parseMember v).value = v := by
  cases v <;> rfl

theorem Literal.stays_of_parse (h : Stays (parse v).value) : v.Stays := by
  rcases parse_value v with hvalue | ⟨s, rfl⟩
  · rwa [hvalue] at h
  · rfl

/-! ## Checks -/

/-- Items that are mapped by a step on their own are mapped together. -/
theorem Outcome.mapM_map_eq_ok {α β : Type} {f g : α → Outcome β} {h : α → α} {r : β → β} {K : β → Prop}
    {xs : List α} {ys : List β} (hf : xs.mapM f = .ok ys) (hK : ∀ y ∈ ys, K y)
    (hstep : ∀ x ∈ xs, ∀ y, f x = .ok y → K y → g (h x) = .ok (r y)) :
    (xs.map h).mapM g = .ok (ys.map r) := by
  rw [mapM_eq_ok] at hf ⊢
  rw [List.forall₂_map_left_iff, List.forall₂_map_right_iff]
  exact forall₂_imp_of_mem hf fun x hx y hy hxy => hstep x hx y hxy (hK y hy)

namespace Grammar

variable {g : Grammar} {es : List (Value × Value)}

/-- Wherever the value is accepted and compares with what stays, is what arrives accepted as the same but for the
operands as written? -/
structure ChecksArrive (g : Grammar) (v : Value) : Prop where
  negated {path : String} {c : Condition} (h : checkNegated g v path = .ok c) (hc : c.Compares Stays) :
    checkNegated g v.arrived path = .ok (c.mapRaw arrived)
  junction {key path : String} {depth : Nat} {n : Node} (h : g.checkJunction key depth path v = .ok n)
    (hn : n.Compares Stays) : g.checkJunction key depth path v.arrived = .ok (n.mapRaw arrived)
  not {depth : Nat} {path : String} {n : Node} (h : g.checkNot depth path v = .ok n) (hn : n.Compares Stays) :
    g.checkNot depth path v.arrived = .ok (n.mapRaw arrived)
  condition {depth : Nat} {path : String} {c : Condition} (h : g.checkCondition depth path v = .ok c)
    (hc : c.Compares Stays) : g.checkCondition depth path v.arrived = .ok (c.mapRaw arrived)
  object {es : List (Value × Value)} {depth : Nat} {path : String} {n : Node} (hv : v = .object es)
    (h : g.object depth path v (fun _ => g.checkEntries depth path v es) = .ok n) (hn : n.Compares Stays) :
    g.object depth path v.arrived (fun _ => g.checkEntries depth path v.arrived
      (es.map fun e => (e.1.arrived, e.2.arrived))) = .ok (n.mapRaw arrived)

/-- Do the values of entries have checks that arrive, and do the keys stay? -/
def EntriesArrive (g : Grammar) (es : List (Value × Value)) : Prop :=
  ∀ e ∈ es, e.1.Stays ∧ e.2.Throughout Keyed ∧ g.ChecksArrive e.2

theorem checkTest_arrived (hg : g.table = Table.builtins) {map map' : Value} {key path : String} {test : Test}
    (hv : v.Throughout Keyed) (h : checkTest g map key v path = .ok test) (htest : test.Compares Stays) :
    checkTest g map' key v.arrived path = .ok (test.mapRaw arrived) := by
  unfold checkTest Table.lookup at h ⊢
  rw [hg] at h ⊢
  rcases hfind : Table.builtins.find? key with _ | info
  · rw [hfind] at h
    cases h
  simp only [hfind, Outcome.ok_bind] at h ⊢
  rcases Table.find?_builtins hfind with ⟨b, rfl, rfl⟩ | ⟨hs, -⟩
  · obtain ⟨operand, hcheck, rfl⟩ := Outcome.map_eq_ok.1 ((Outcome.bind_pure_eq _).symm.trans h)
    have harrived : b.check v.arrived path = .ok operand := Builtin.check_arrived hv hcheck htest
    show (do return Test.apply b.key (← b.check v.arrived path) v.arrived) = _
    rw [harrived]
    rfl
  · rw [if_pos hs] at h
    cases h

theorem checkTests_arrived (hg : g.table = Table.builtins) {map map' : Value} {path : String} {ts : List Test}
    (hes : g.EntriesArrive es) (h : checkTests g map path es = .ok ts) (hts : TestsCompare Stays ts) :
    checkTests g map' path (es.map fun e => (e.1.arrived, e.2.arrived)) = .ok (ts.map (Test.mapRaw arrived)) := by
  rw [checkTests_eq] at h ⊢
  refine Outcome.mapM_map_eq_ok h (testsCompare_iff.1 hts) fun e he test htest hkeep => ?_
  obtain ⟨hkey, hkeyed, harrive⟩ := hes e he
  unfold testOf at htest ⊢
  simp only [show e.1.arrived = e.1 from hkey]
  split at htest
  · next hnot =>
    obtain ⟨c, hc, rfl⟩ := Outcome.map_eq_ok.1 htest
    rw [if_pos hnot, harrive.negated hc hkeep]
    rfl
  · next hnot =>
    rw [if_neg hnot]
    exact checkTest_arrived hg hkeyed htest hkeep

theorem nodeOf_arrived {e : Value × Value} {depth : Nat} {path : String} {part part' : Value} {n : Node}
    (hkey : e.1.Stays) (harrive : g.ChecksArrive e.2) (h : g.nodeOf depth path part e = .ok n)
    (hn : n.Compares Stays) : g.nodeOf depth path part' (e.1.arrived, e.2.arrived) = .ok (n.mapRaw arrived) := by
  rcases e with ⟨k, v⟩
  cases k with
  | text key =>
    unfold nodeOf at h ⊢
    simp only [show (Value.text key).arrived = .text key from rfl] at h ⊢
    split at h
    · next hjunction =>
      rw [if_pos hjunction]
      exact harrive.junction h hn
    next hjunction =>
    rw [if_neg hjunction]
    split at h
    · next hnot =>
      rw [if_pos hnot]
      exact harrive.not h hn
    next hnot =>
    rw [if_neg hnot]
    split at h
    · obtain ⟨info, -, h⟩ := Outcome.bind_eq_ok.1 h
      cases h
    next hoperator =>
    obtain ⟨c, hc, rfl⟩ := Outcome.map_eq_ok.1 h
    rw [if_neg hoperator, harrive.condition hc hn]
    rfl
  | _ => cases h

theorem conjunction_mapRaw (f : Value → Value) (ns : List Node) :
    conjunction (ns.map (Node.mapRaw f)) = (conjunction ns).mapRaw f := by
  rcases ns with _ | ⟨n, _ | ⟨m, ns⟩⟩
  · rfl
  · rfl
  · show Node.all ((n :: m :: ns).map _) true = (Node.all (n :: m :: ns) true).mapRaw f
    rw [Node.mapRaw, mapRawAll_eq]

theorem allCompare_of_conjunction {P : Value → Prop} {ns : List Node} (h : (conjunction ns).Compares P) :
    AllCompare P ns := by
  rcases ns with _ | ⟨n, _ | ⟨m, ns⟩⟩
  · trivial
  · exact ⟨h, trivial⟩
  · exact h

theorem object_arrived {depth : Nat} {path : String} {part part' : Value} {n : Node} (hes : g.EntriesArrive es)
    (h : g.object depth path part (fun _ => g.checkEntries depth path part es) = .ok n) (hn : n.Compares Stays) :
    g.object depth path part' (fun _ => g.checkEntries depth path part'
      (es.map fun e => (e.1.arrived, e.2.arrived))) = .ok (n.mapRaw arrived) := by
  unfold object at h ⊢
  split at h
  · cases h
  next hdepth =>
  obtain ⟨ns, hns, rfl⟩ := Outcome.map_eq_ok.1 h
  have hkeep := allCompare_iff.1 (allCompare_of_conjunction hn)
  rw [checkEntries_eq] at hns
  have harrived := Outcome.mapM_map_eq_ok (g := g.nodeOf depth path part')
    (h := fun e => (e.1.arrived, e.2.arrived)) hns hkeep fun e he m hm hkeep =>
      nodeOf_arrived (hes e he).1 (hes e he).2.2 hm hkeep
  rw [if_neg hdepth, checkEntries_eq, harrived, Outcome.map_ok, conjunction_mapRaw]

theorem checkItems_arrived {key path : String} {depth place : Nat} {xs : List Value} {ns : List Node}
    (hxs : ∀ x ∈ xs, g.ChecksArrive x) (h : g.checkItems key depth path place xs = .ok ns)
    (hns : AllCompare Stays ns) :
    g.checkItems key depth path place (xs.map arrived) = .ok (ns.map (Node.mapRaw arrived)) := by
  induction xs generalizing place ns with
  | nil =>
    cases h
    rfl
  | cons x xs ih =>
    cases x with
    | object es =>
      rw [checkItems] at h
      obtain ⟨n, hn, h⟩ := Outcome.bind_eq_ok.1 h
      obtain ⟨ms, hms, rfl⟩ := Outcome.map_eq_ok.1 ((Outcome.bind_pure_eq _).symm.trans h)
      have hhead := (hxs _ (List.mem_cons_self ..)).object rfl hn hns.1
      have htail := ih (fun x hx => hxs x (List.mem_cons_of_mem _ hx)) hms hns.2
      rw [List.map_cons, arrived_object]
      rw [arrived_object] at hhead
      rw [checkItems, hhead, Outcome.ok_bind, htail]
      rfl
    | _ => cases h

theorem junction_mapRaw (f : Value → Value) (key : String) (ns : List Node) :
    Grammar.junction key (ns.map (Node.mapRaw f)) = (Grammar.junction key ns).mapRaw f := by
  unfold Grammar.junction
  split <;> rw [Node.mapRaw, mapRawAll_eq]

theorem allCompare_of_junction {P : Value → Prop} {key : String} {ns : List Node}
    (h : (Grammar.junction key ns).Compares P) : AllCompare P ns := by
  unfold Grammar.junction at h
  split at h <;> exact h

theorem checksArrive_of_items {items : List Value} (hitems : ∀ x ∈ items, g.ChecksArrive x)
    (hv : v = .list items ∨ v = .tuple items) : g.ChecksArrive v := by
  have harrived : v.arrived = .list (items.map arrived) := by
    rcases hv with rfl | rfl
    · exact arrived_list items
    · exact arrived_tuple items
  have hjunction {key path : String} {depth : Nat} {n : Node}
      (h : (g.checkItems key depth path 0 items).map (Grammar.junction key) = .ok n) (hn : n.Compares Stays) :
      g.checkJunction key depth path v.arrived = .ok (n.mapRaw arrived) := by
    obtain ⟨ns, hns, rfl⟩ := Outcome.map_eq_ok.1 h
    rw [harrived, checkJunction, checkItems_arrived hitems hns (allCompare_of_junction hn), Outcome.map_ok,
      junction_mapRaw]
  have hmembers (h : ∀ l ∈ items.map Literal.parseMember, l.value.Stays) : items.map arrived = items := by
    refine map_eq_self_iff.2 fun x hx => ?_
    have hstay := h _ (List.mem_map.2 ⟨x, hx, rfl⟩)
    rwa [Literal.parseMember_value] at hstay
  have hcondition {depth : Nat} {path : String} {c : Condition}
      (h : (.ok (.anyOf (items.map .parseMember)) : Outcome Condition) = .ok c) (hc : c.Compares Stays) :
      g.checkCondition depth path v.arrived = .ok (c.mapRaw arrived) := by
    cases h
    rw [harrived, hmembers hc]
    rfl
  rcases hv with rfl | rfl <;>
    exact ⟨fun h => (nomatch h), hjunction, fun h => (nomatch h), hcondition, fun h => (nomatch h)⟩

theorem checksArrive_of_entries (hg : g.table = Table.builtins) (hes : g.EntriesArrive es) :
    g.ChecksArrive (.object es) := by
  have harrived := arrived_object es
  have htests {map map' : Value} {path : String} {c : Condition}
      (h : (checkTests g map path es).map .tests = .ok c) (hc : c.Compares Stays) :
      (checkTests g map' path (es.map fun e => (e.1.arrived, e.2.arrived))).map .tests =
        .ok (c.mapRaw arrived) := by
    obtain ⟨ts, hts, rfl⟩ := Outcome.map_eq_ok.1 h
    rw [checkTests_arrived hg hes hts hc, Outcome.map_ok, Condition.mapRaw, mapRawTests_eq]
  have hkeys : (es.map fun e => (e.1.arrived, e.2.arrived)).map (·.1) = es.map (·.1) := by
    rw [List.map_map]
    exact List.map_congr_left fun e he => (hes e he).1
  have hempty : (es.map fun e => (e.1.arrived, e.2.arrived)).isEmpty = es.isEmpty := List.isEmpty_map ..
  have hall : ((es.map fun e => (e.1.arrived, e.2.arrived)).all fun e => isOperatorKey e.1) =
      es.all fun e => isOperatorKey e.1 := by
    have hall (l : List (Value × Value)) : (l.all fun e => isOperatorKey e.1) = (l.map (·.1)).all isOperatorKey := by
      rw [List.all_map]
      rfl
    rw [hall, hall, hkeys]
  refine ⟨fun {path c} h hc => ?_, fun h => (nomatch h), fun {depth path n} h hn => ?_,
    fun {depth path c} h hc => ?_, fun {entries depth path n} hentries h hn => ?_⟩
  · rw [checkNegated] at h
    rw [harrived, checkNegated, hempty, hall]
    split at h
    · cases h
    next hshape =>
    rw [if_neg hshape]
    exact htests h hc
  · rw [checkNot] at h
    obtain ⟨item, hitem, rfl⟩ := Outcome.map_eq_ok.1 h
    rw [harrived, checkNot, object_arrived hes hitem hn]
    rfl
  · rw [checkCondition] at h
    rw [harrived, checkCondition]
    simp only [hkeys]
    split at h
    · cases h
    next hmixed =>
    rw [if_neg hmixed]
    split at h
    · next hoperators =>
      rw [if_pos hoperators]
      exact htests h hc
    · next hoperators =>
      obtain ⟨node, hnode, rfl⟩ := Outcome.map_eq_ok.1 h
      rw [if_neg hoperators, object_arrived hes hnode hc]
      rfl
  · cases hentries
    rw [harrived]
    exact object_arrived hes h hn

theorem checksArrive_of_literal (hnegated : ∀ path, checkNegated g v path = .ok (.literal (.parse v)))
    (hcondition : ∀ depth path, g.checkCondition depth path v = .ok (.literal (.parse v)))
    (hjunction : ∀ key depth path n, g.checkJunction key depth path v ≠ .ok n)
    (hnot : ∀ depth path n, g.checkNot depth path v ≠ .ok n) (hobject : ∀ es, v ≠ .object es) :
    g.ChecksArrive v := by
  refine ⟨fun {path c} h hc => ?_, fun h => absurd h (hjunction _ _ _ _), fun h => absurd h (hnot _ _ _),
    fun {depth path c} h hc => ?_, fun h => absurd h (hobject _)⟩
  · rw [hnegated] at h
    cases h
    rw [show v.arrived = v from Literal.stays_of_parse hc, hnegated]
    rfl
  · rw [hcondition] at h
    cases h
    rw [show v.arrived = v from Literal.stays_of_parse hc, hcondition]
    rfl

/-- What compares with what stays is accepted on arrival, as the same but for the operands as written. -/
theorem checksArrive (hg : g.table = Table.builtins) (hv : v.Throughout Keyed) : g.ChecksArrive v := by
  induction v using Value.induction with
  | step v ih =>
    have hparts : ∀ u ∈ v.parts, g.ChecksArrive u := fun u hu => ih u hu (hv.part hu)
    cases v with
    | list items => exact checksArrive_of_items hparts (.inl rfl)
    | tuple items => exact checksArrive_of_items hparts (.inr rfl)
    | object es =>
      refine checksArrive_of_entries hg fun e he => ?_
      have hpart := (mem_parts_object he).2
      exact ⟨hv.here.2 e he, hv.part hpart, hparts _ hpart⟩
    | _ =>
      exact checksArrive_of_literal (fun _ => rfl) (fun _ _ => rfl) (fun _ _ _ _ h => (nomatch h))
        (fun _ _ _ h => (nomatch h)) fun _ h => nomatch h

theorem check_arrived (hg : g.table = Table.builtins) (hv : v.Throughout Keyed) {n : Node}
    (h : g.check v = .ok n) (hn : n.Compares Stays) : g.check v.arrived = .ok (n.mapRaw arrived) := by
  have hliteral (hstay : v.Stays) (hraw : n.mapRaw arrived = n) : g.check v.arrived = .ok (n.mapRaw arrived) := by
    rw [hraw, show v.arrived = v from hstay]
    exact h
  cases v with
  | object es =>
    have harrived := (checksArrive hg hv).object rfl h hn
    rwa [arrived_object] at harrived ⊢
  | text | int | float | bool | null | date | moment =>
    cases h
    exact hliteral (Literal.stays_of_parse hn) rfl
  | callable c =>
    cases c with
    | function name =>
      cases h
      rfl
    | type => cases h
  | _ => cases h

end Grammar

/-- A query that compares with what stays is accepted on arrival and matches as before. -/
theorem validate_arrived {functions : Functions} {depth : Value} {n : Node} (hv : v.Throughout Keyed)
    (h : validate Table.builtins functions depth v = .ok n) (hn : n.Compares Stays) :
    ∃ m, validate Table.builtins functions depth v.arrived = .ok m ∧
      ∀ (t : Terms) (table : Table) (record : Value), m.matches t table record = n.matches t table record := by
  obtain ⟨limit, hlimit, hcheck⟩ := Outcome.bind_eq_ok.1 h
  refine ⟨n.mapRaw arrived, ?_, fun t table record => n.matches_mapRaw arrived t table record⟩
  rw [validate, hlimit]
  exact Grammar.check_arrived rfl hv hcheck hn

end Winnow
