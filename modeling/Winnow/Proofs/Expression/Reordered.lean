import Winnow.Proofs.Expression.Entries
import Winnow.Proofs.Matching.Agree
/-! # The order of entries

A check accepts an expression in every order of the entries of its mappings, and the trees agree: for no record
do they come to different answers. -/

namespace Winnow
open Value Outcome

/-! ## Mappings in another order -/

namespace Value.Reordered

variable {es : List (Value × Value)} {xs : List Value} {w : Value}

/-- Entries with one key whose values are reordered. -/
def Entry (e f : Value × Value) : Prop := e.1 = f.1 ∧ Reordered e.2 f.2

/-- A mapping is a mapping in any order: its keys are the same, and its entries have counterparts. -/
theorem of_object (h : Reordered (.object es) w) : ∃ fs, w = .object fs ∧
    (es.map (·.1)).Perm (fs.map (·.1)) ∧ Paired Entry es fs := by
  cases h with
  | refl =>
    exact ⟨es, rfl, .refl _, .of_forall₂ (List.forall₂_same.2 fun e _ => ⟨rfl, .refl e.2⟩)⟩
  | object hperm hkeys h =>
    refine ⟨_, rfl, ?_, .of_perm hperm (.of_forall₂ (entries_rel hkeys h))⟩
    rw [← hkeys]
    exact hperm.map _

theorem of_list (h : Reordered (.list xs) w) : ∃ ys, w = .list ys ∧ List.Forall₂ Reordered xs ys := by
  cases h with
  | refl => exact ⟨xs, rfl, List.forall₂_same.2 fun x _ => .refl x⟩
  | list h => exact ⟨_, rfl, h⟩

theorem of_tuple (h : Reordered (.tuple xs) w) : ∃ ys, w = .tuple ys ∧ List.Forall₂ Reordered xs ys := by
  cases h with
  | refl => exact ⟨xs, rfl, List.forall₂_same.2 fun x _ => .refl x⟩
  | tuple h => exact ⟨_, rfl, h⟩

end Value.Reordered

/-! ## Literals -/

variable {v w : Value}

theorem hitsLiteral_reordered (h : Reordered v w) (hv : v.WellMapped) {t : Terms} (ht : t.comparator = none)
    (actual raw raw' : Value) :
    t.hitsLiteral ⟨raw, v, false, none⟩ actual = t.hitsLiteral ⟨raw', w, false, none⟩ actual := by
  unfold Terms.hitsLiteral
  simp only [ht, matchesThrough_reordered h hv]

theorem Literal.parse_reordered (h : Reordered v w) (hv : v.WellMapped) :
    (Literal.parse v).Agrees (.parse w) := by
  have h' := h
  cases h with
  | refl => exact .refl _
  | _ => exact ⟨rfl, fun t actual ht => hitsLiteral_reordered h' hv ht actual _ _⟩

theorem Literal.parseMember_reordered (h : Reordered v w) (hv : v.WellMapped) :
    (Literal.parseMember v).Agrees (.parseMember w) := by
  have h' := h
  cases h with
  | refl => exact .refl _
  | _ => exact ⟨rfl, fun t actual ht => hitsLiteral_reordered h' hv ht actual _ _⟩

/-! ## Checks -/

namespace Grammar

variable {g : Grammar} {es fs : List (Value × Value)}

/-- Wherever the first value is accepted, is the second one, and do the trees agree? -/
structure ChecksFollow (g : Grammar) (v w : Value) : Prop where
  negated (path : String) : Follows Condition.Agrees (checkNegated g v path) (checkNegated g w path)
  junction (key : String) (depth : Nat) (path : String) :
    Follows Node.Agrees (g.checkJunction key depth path v) (g.checkJunction key depth path w)
  not (depth : Nat) (path : String) : Follows Node.Agrees (g.checkNot depth path v) (g.checkNot depth path w)
  condition (depth : Nat) (path : String) :
    Follows Condition.Agrees (g.checkCondition depth path v) (g.checkCondition depth path w)
  object (depth : Nat) (path : String) {es fs : List (Value × Value)} (hv : v = .object es)
    (hw : w = .object fs) :
    Follows Node.Agrees (g.object depth path v fun _ => g.checkEntries depth path v es)
      (g.object depth path w fun _ => g.checkEntries depth path w fs)

theorem checkTest_follows (hg : g.table = Table.builtins) (h : Reordered v w) (hv : v.WellMapped)
    (map map' : Value) (key path : String) :
    Follows Test.Agrees (checkTest g map key v path) (checkTest g map' key w path) := by
  unfold checkTest Table.lookup
  rw [hg]
  rcases hfind : Table.builtins.find? key with _ | info
  · exact .error _ _
  simp only [Outcome.ok_bind]
  rcases Table.find?_builtins hfind with ⟨b, rfl, rfl⟩ | ⟨hs, -⟩
  · exact .bind (b.check_reordered h hv path) fun o o' ho => .ok (.apply ho v w)
  · rw [if_pos hs]
    exact .error _ _

/-- Do all values of entries have checks that follow when they are reordered? -/
def EntriesFollow (g : Grammar) (es : List (Value × Value)) : Prop :=
  ∀ e ∈ es, e.2.WellMapped ∧ ∀ w, Reordered e.2 w → g.ChecksFollow e.2 w

theorem checkTests_follows (hg : g.table = Table.builtins) (h : Paired Reordered.Entry es fs)
    (hes : g.EntriesFollow es) (map map' : Value) (path : String) :
    Follows (Paired Test.Agrees) (checkTests g map path es) (checkTests g map' path fs) := by
  rw [checkTests_eq, checkTests_eq]
  refine .mapM_paired h fun e he f _ hef => ?_
  obtain ⟨hwell, hfollow⟩ := hes e he
  unfold testOf
  rw [← hef.1]
  refine .ite Iff.rfl ?_ (checkTest_follows hg hef.2 hwell map map' _ _)
  exact ((hfollow f.2 hef.2).negated _).map fun c d hcd => .negate hcd e.2 f.2

theorem nodeOf_follows {e f : Value × Value} (h : Reordered.Entry e f) (hfollow : g.ChecksFollow e.2 f.2)
    (depth : Nat) (path : String) (part part' : Value) :
    Follows Node.Agrees (g.nodeOf depth path part e) (g.nodeOf depth path part' f) := by
  rcases e with ⟨k, v⟩
  rcases f with ⟨_, w⟩
  obtain ⟨rfl, h⟩ := h
  cases k with
  | text key =>
    unfold nodeOf
    refine .ite Iff.rfl (hfollow.junction _ _ _) (.ite Iff.rfl (hfollow.not _ _) (.ite Iff.rfl ?_ ?_))
    · cases g.table.lookup key path part <;> exact .error _ _
    · exact (hfollow.condition _ _).map fun c d hcd => .field key hcd
  | _ => exact .error _ _

theorem object_follows (h : Paired Reordered.Entry es fs) (hes : g.EntriesFollow es) (depth : Nat)
    (path : String) (part part' : Value) :
    Follows Node.Agrees (g.object depth path part fun _ => g.checkEntries depth path part es)
      (g.object depth path part' fun _ => g.checkEntries depth path part' fs) := by
  unfold object
  refine .ite Iff.rfl (.error _ _) ?_
  rw [checkEntries_eq, checkEntries_eq]
  refine Follows.map (.mapM_paired h fun e he f _ hef => ?_) fun ns ms hnm => Node.Agrees.conjunction hnm
  exact nodeOf_follows hef ((hes e he).2 f.2 hef.2) depth path part part'

theorem checkItems_follows {xs ys : List Value} (h : List.Forall₂ Reordered xs ys)
    (hxs : ∀ x ∈ xs, ∀ y, Reordered x y → g.ChecksFollow x y) (key : String) (depth : Nat) (path : String)
    (place : Nat) :
    Follows (List.Forall₂ Node.Agrees) (g.checkItems key depth path place xs)
      (g.checkItems key depth path place ys) := by
  induction h generalizing place with
  | nil => exact .ok .nil
  | @cons x y xs ys hxy _ ih =>
    cases x with
    | object es =>
      obtain ⟨fs, rfl, -⟩ := hxy.of_object
      rw [checkItems, checkItems]
      refine .bind ((hxs _ (List.mem_cons_self ..) _ hxy).object _ _ rfl rfl) fun n m hnm => ?_
      refine .bind (ih (fun x hx => hxs x (List.mem_cons_of_mem _ hx)) _) fun ns ms hnms => ?_
      exact .ok (.cons hnm hnms)
    | _ => exact .error _ _

theorem checksFollow_of_items {xs ys : List Value} (h : List.Forall₂ Reordered xs ys)
    (hxs : ∀ x ∈ xs, x.WellMapped ∧ ∀ y, Reordered x y → g.ChecksFollow x y)
    (hvw : v = .list xs ∧ w = .list ys ∨ v = .tuple xs ∧ w = .tuple ys) : g.ChecksFollow v w := by
  have hjunction (key : String) (depth : Nat) (path : String) : Follows Node.Agrees
      ((g.checkItems key depth path 0 xs).map (Grammar.junction key))
      ((g.checkItems key depth path 0 ys).map (Grammar.junction key)) :=
    (checkItems_follows h (fun x hx => (hxs x hx).2) key depth path 0).map fun ns ms hnm =>
      .junction key (.of_forall₂ hnm)
  have hmembers : (Condition.anyOf (xs.map .parseMember)).Agrees (.anyOf (ys.map .parseMember)) :=
    .anyOf (.map (.of_forall₂ h) fun x hx y _ hxy => Literal.parseMember_reordered hxy (hxs x hx).1)
  rcases hvw with ⟨rfl, rfl⟩ | ⟨rfl, rfl⟩ <;>
    exact ⟨fun _ => .error _ _, hjunction, fun _ _ => .error _ _, fun _ _ => .ok hmembers,
      fun _ _ _ _ h => nomatch h⟩

theorem checksFollow_of_entries (hg : g.table = Table.builtins)
    (hperm : (es.map (·.1)).Perm (fs.map (·.1))) (h : Paired Reordered.Entry es fs) (hes : g.EntriesFollow es) :
    g.ChecksFollow (.object es) (.object fs) := by
  have htests (map map' : Value) (path : String) : Follows Condition.Agrees
      ((checkTests g map path es).map .tests) ((checkTests g map' path fs).map .tests) :=
    (checkTests_follows hg h hes map map' path).map fun ts us => .tests
  have hobject := object_follows h hes
  refine ⟨fun path => ?_, fun _ _ _ => .error _ _, fun depth path => ?_, fun depth path => ?_,
    fun depth path => ?_⟩
  · have hshape : (es.isEmpty || !es.all fun e => isOperatorKey e.1) =
        (fs.isEmpty || !fs.all fun e => isOperatorKey e.1) := by
      have hempty : es.isEmpty = fs.isEmpty := by
        have hlength := hperm.length_eq
        rw [List.length_map, List.length_map] at hlength
        rw [Bool.eq_iff_iff, List.isEmpty_iff_length_eq_zero, List.isEmpty_iff_length_eq_zero, hlength]
      have hall := hperm.all_eq (f := isOperatorKey)
      rw [List.all_map, List.all_map] at hall
      rw [hempty]
      exact congrArg (fs.isEmpty || !·) hall
    rw [checkNegated, checkNegated, hshape]
    exact .ite Iff.rfl (.error _ _) (htests _ _ _)
  · rw [checkNot, checkNot]
    exact (hobject _ _ _ _).map fun n m => .not
  · have hoperators := hperm.filter isOperatorKey
    have hempty : ((es.map (·.1)).filter isOperatorKey).isEmpty =
        ((fs.map (·.1)).filter isOperatorKey).isEmpty := by
      rw [Bool.eq_iff_iff, List.isEmpty_iff_length_eq_zero, List.isEmpty_iff_length_eq_zero,
        hoperators.length_eq]
    rw [checkCondition, checkCondition]
    simp only [hempty, hoperators.length_eq, hperm.length_eq]
    refine .ite Iff.rfl (.error _ _) (.ite Iff.rfl (htests _ _ _) ?_)
    exact (hobject _ _ _ _).map fun n m => .nested
  · rintro es' fs' ⟨rfl⟩ ⟨rfl⟩
    exact hobject _ _ _ _

/-- What is accepted is accepted in every order of its entries, as a tree that agrees. -/
theorem checksFollow (hg : g.table = Table.builtins) (h : Reordered v w) (hv : v.WellMapped) :
    g.ChecksFollow v w := by
  induction v using Value.induction generalizing w with
  | step v ih =>
    have hparts : ∀ u ∈ v.parts, u.WellMapped ∧ ∀ w, Reordered u w → g.ChecksFollow u w :=
      fun u hu => ⟨hv.part hu, fun w hw => ih u hu hw (hv.part hu)⟩
    cases v with
    | list xs =>
      obtain ⟨ys, rfl, hxy⟩ := h.of_list
      exact checksFollow_of_items hxy hparts (.inl ⟨rfl, rfl⟩)
    | tuple xs =>
      obtain ⟨ys, rfl, hxy⟩ := h.of_tuple
      exact checksFollow_of_items hxy hparts (.inr ⟨rfl, rfl⟩)
    | object es =>
      obtain ⟨fs, rfl, hperm, hef⟩ := h.of_object
      exact checksFollow_of_entries hg hperm hef fun e he => hparts _ (mem_parts_object he).2
    | _ =>
      have hliteral := Condition.Agrees.literal (Literal.parse_reordered h hv)
      cases h <;>
        exact ⟨fun _ => .ok hliteral, fun _ _ _ => .error _ _, fun _ _ => .error _ _, fun _ _ => .ok hliteral,
          fun _ _ _ _ h => nomatch h⟩

theorem check_follows (hg : g.table = Table.builtins) (h : Reordered v w) (hv : v.WellMapped) :
    Follows Node.Agrees (g.check v) (g.check w) := by
  have h' := h
  cases h with
  | refl => exact .of_eq .refl rfl
  | object => exact (checksFollow hg h' hv).object 1 "" rfl rfl
  | _ => exact .error _ _

end Grammar

/-! ## Validation -/

/-- A query for the records of which a field lies between two numbers, with its tests in either order. -/
def rangeQuery (lowerFirst : Bool) : Value :=
  let lower := (Builtin.gt.key, Value.int 0)
  let upper := (Builtin.lt.key, Value.int 2)
  .ofPairs [("f", .ofPairs (if lowerFirst then [lower, upper] else [upper, lower]))]

theorem rangeQuery_wellMapped (lowerFirst : Bool) : (rangeQuery lowerFirst).WellMapped := by
  have hint (i : Int) : (int i).WellMapped := wellMapped_atom rfl trivial
  refine wellMapped_ofPairs (List.nodup_singleton _) (List.forall_mem_singleton.2 (wellMapped_ofPairs ?_ ?_))
  · cases lowerFirst <;> decide
  · cases lowerFirst <;> simp [hint]

theorem rangeQuery_reordered : Reordered (rangeQuery true) (rangeQuery false) :=
  .object (.refl _) rfl (.cons (.object (.swap _ _ _) rfl (List.forall₂_same.2 fun x _ => .refl x)) .nil)

end Winnow
