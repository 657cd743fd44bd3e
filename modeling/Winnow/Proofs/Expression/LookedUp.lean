import Winnow.Proofs.Expression.Keys
import Winnow.Proofs.Matching.Keys
/-! # What a check takes from a table

A check looks up the keys that an expression uses, but for the logical ones, and no others. Tables that hold the
same operators under these keys accept the same expressions, as the same trees, and trees have no keys but the
ones that their expressions use. -/

namespace Winnow

namespace Grammar

open Outcome

variable (K : String → Prop) (table table' : Table) (functions : Functions) (limit : Nat)

/-- Do the tables hold the same under the keys that the entries use, the logical ones aside, and are these keys
in the set? -/
def Cover (p : KeyPlace) (es : List (Value × Value)) : Prop :=
  ∀ q key, UsesIn p es q key → IsLogical q key ∨ K key ∧ table.find? key = table'.find? key

/-- Once more the same, with a property. -/
abbrev Again {α : Type} (P : α → Prop) (a b : α) : Prop := P a ∧ a = b

/-- Does what is accepted with the first table come to the same with the second, in trees with keys of the set? -/
structure ChecksAgain (v : Value) : Prop where
  negated (path : String) (h : ∀ es, v = .object es → Cover K table table' .field es) :
    Follows (Again (Condition.KeysIn K)) (checkNegated ⟨table, functions, limit⟩ v path)
      (checkNegated ⟨table', functions, limit⟩ v path)
  condition (depth : Nat) (path : String) (h : ∀ es, v = .object es → Cover K table table' .field es) :
    Follows (Again (Condition.KeysIn K)) (checkCondition ⟨table, functions, limit⟩ depth path v)
      (checkCondition ⟨table', functions, limit⟩ depth path v)
  junction (key : String) (depth : Nat) (path : String)
    (h : ∀ xs, v.items? = some xs → ∀ es, .object es ∈ xs → Cover K table table' .object es) :
    Follows (Again (Node.KeysIn K)) (checkJunction ⟨table, functions, limit⟩ key depth path v)
      (checkJunction ⟨table', functions, limit⟩ key depth path v)
  not (depth : Nat) (path : String) (h : ∀ es, v = .object es → Cover K table table' .object es) :
    Follows (Again (Node.KeysIn K)) (checkNot ⟨table, functions, limit⟩ depth path v)
      (checkNot ⟨table', functions, limit⟩ depth path v)
  object (depth : Nat) (path : String) (part : Value) {es : List (Value × Value)} (hv : v = .object es)
    (h : Cover K table table' .object es) :
    Follows (Again (Node.KeysIn K))
      (object ⟨table, functions, limit⟩ depth path part fun _ =>
        checkEntries ⟨table, functions, limit⟩ depth path part es)
      (object ⟨table', functions, limit⟩ depth path part fun _ =>
        checkEntries ⟨table', functions, limit⟩ depth path part es)

variable {K table table' functions limit} {es : List (Value × Value)}

theorem ite_again {α : Type} {c : Prop} [Decidable c] {x x' y y' : Outcome α} {P : α → Prop}
    (h : c → Follows (Again P) x y) (h' : ¬c → Follows (Again P) x' y') :
    Follows (Again P) (if c then x else x') (if c then y else y') := by
  by_cases hc : c
  · rw [if_pos hc, if_pos hc]
    exact h hc
  · rw [if_neg hc, if_neg hc]
    exact h' hc

theorem map_again {α β : Type} {x y : Outcome α} {P : α → Prop} {Q : β → Prop} {f : α → β}
    (h : Follows (Again P) x y) (hf : ∀ a, P a → Q (f a)) : Follows (Again Q) (x.map f) (y.map f) := by
  refine h.map fun a b hab => ?_
  obtain ⟨ha, rfl⟩ := hab
  exact ⟨hf a ha, rfl⟩

theorem mapM_again {α β : Type} {f g : α → Outcome β} {P : β → Prop} {xs : List α}
    (h : ∀ x ∈ xs, Follows (Again P) (f x) (g x)) :
    Follows (Again fun ys => ∀ y ∈ ys, P y) (xs.mapM f) (xs.mapM g) := by
  have hall : Follows (List.Forall₂ (Again P)) (xs.mapM f) (xs.mapM g) := by
    refine .mapM (R := Eq) (List.forall₂_same.2 fun x _ => rfl) ?_
    rintro x hx _ rfl
    exact h x hx
  refine hall.mono fun ys zs hyz => ?_
  obtain ⟨hys, heq⟩ := (List.forall₂_and_left ..).1 hyz
  exact ⟨hys, List.forall₂_eq_eq_eq ▸ heq⟩

theorem checkTest_again {key : String} (hkey : K key) (hfind : table.find? key = table'.find? key)
    (map v : Value) (path : String) :
    Follows (Again (Test.KeysIn K)) (checkTest ⟨table, functions, limit⟩ map key v path)
      (checkTest ⟨table', functions, limit⟩ map key v path) := by
  unfold checkTest Table.lookup
  rw [hfind]
  rcases table'.find? key with _ | o
  · exact .error _ _
  refine .ite Iff.rfl (.error _ _) ?_
  refine .bind (R := Eq) (.of_eq (fun _ => rfl) rfl) ?_
  rintro operand _ rfl
  exact .ok ⟨hkey, rfl⟩

theorem checkTests_again (hes : ∀ e ∈ es, ChecksAgain K table table' functions limit e.2)
    (hkeys : ∀ e ∈ es, isOperatorKey e.1 = true) (h : Cover K table table' .field es) (map : Value)
    (path : String) :
    Follows (Again (TestsKeysIn K)) (checkTests ⟨table, functions, limit⟩ map path es)
      (checkTests ⟨table', functions, limit⟩ map path es) := by
  rw [checkTests_eq, checkTests_eq]
  refine (mapM_again (P := Test.KeysIn K) ?_).mono fun ts us htu => ⟨testsKeysIn_iff.2 htu.1, htu.2⟩
  rintro ⟨k, v⟩ he
  have hkey := hkeys _ he
  obtain ⟨key, rfl⟩ := eq_text_of_isOperatorKey hkey
  unfold testOf
  refine ite_again (fun hnot => ?_) (fun hnot => ?_)
  · obtain rfl : key = notKey := hnot
    refine map_again ((hes _ he).negated _ ?_) fun c hc => hc
    rintro fs rfl q key hin
    exact h q key (.negation he hin)
  · rcases h _ _ (.here he hkey) with hlogical | ⟨hK, hfind⟩
    · exact absurd hlogical hnot
    · exact checkTest_again hK hfind map v _

theorem nodeOf_again {e : Value × Value} (he : e ∈ es) (hv : ChecksAgain K table table' functions limit e.2)
    (h : Cover K table table' .object es) (depth : Nat) (path : String) (part : Value) :
    Follows (Again (Node.KeysIn K)) (nodeOf ⟨table, functions, limit⟩ depth path part e)
      (nodeOf ⟨table', functions, limit⟩ depth path part e) := by
  rcases e with ⟨k, v⟩
  cases k with
  | text key =>
    unfold nodeOf
    refine ite_again (fun hjunction => ?_) fun _ => ite_again (fun hnot => ?_) fun _ =>
      ite_again (fun _ => ?_) fun hkey => ?_
    · refine hv.junction key depth _ fun xs hxs fs hfs q key' hin => ?_
      exact h q key' (.junction he hjunction hxs hfs hin)
    · subst hnot
      refine hv.not depth _ ?_
      rintro fs rfl q key' hin
      exact h q key' (.negation he hin)
    · cases table.lookup key path part <;> exact .error _ _
    · refine map_again (hv.condition depth _ ?_) fun c hc => hc
      rintro fs rfl q key' hin
      exact h q key' (.field he (by simpa using hkey) hin)
  | _ => exact .error _ _

theorem object_again (hes : ∀ e ∈ es, ChecksAgain K table table' functions limit e.2)
    (h : Cover K table table' .object es) (depth : Nat) (path : String) (part : Value) :
    Follows (Again (Node.KeysIn K))
      (object ⟨table, functions, limit⟩ depth path part fun _ =>
        checkEntries ⟨table, functions, limit⟩ depth path part es)
      (object ⟨table', functions, limit⟩ depth path part fun _ =>
        checkEntries ⟨table', functions, limit⟩ depth path part es) := by
  unfold object
  refine .ite Iff.rfl (.error _ _) ?_
  rw [checkEntries_eq, checkEntries_eq]
  refine map_again (mapM_again fun e he => nodeOf_again he (hes e he) h depth path part) fun ns hns => ?_
  unfold conjunction
  split
  · exact hns _ (List.mem_singleton_self _)
  · exact allKeysIn_iff.2 hns

theorem checkItems_again {xs : List Value} (hxs : ∀ x ∈ xs, ChecksAgain K table table' functions limit x)
    (h : ∀ fs, .object fs ∈ xs → Cover K table table' .object fs) (key : String) (depth : Nat) (path : String)
    (place : Nat) :
    Follows (Again (AllKeysIn K)) (checkItems ⟨table, functions, limit⟩ key depth path place xs)
      (checkItems ⟨table', functions, limit⟩ key depth path place xs) := by
  induction xs generalizing place with
  | nil => exact .ok ⟨trivial, rfl⟩
  | cons x xs ih =>
    cases x with
    | object fs =>
      rw [checkItems, checkItems]
      refine .bind ((hxs _ (List.mem_cons_self ..)).object (depth + 1) _ _ rfl (h fs (List.mem_cons_self ..))) ?_
      rintro n _ ⟨hn, rfl⟩
      refine .bind (ih (fun x hx => hxs x (List.mem_cons_of_mem _ hx))
        (fun fs hfs => h fs (List.mem_cons_of_mem _ hfs)) _) ?_
      rintro ns _ ⟨hns, rfl⟩
      exact .ok ⟨⟨hn, hns⟩, rfl⟩
    | _ => exact .error _ _

theorem checksAgain_of_items {xs : List Value} (hxs : ∀ x ∈ xs, ChecksAgain K table table' functions limit x)
    {v : Value} (hv : v = .list xs ∨ v = .tuple xs) : ChecksAgain K table table' functions limit v := by
  have hjunction (key : String) (depth : Nat) (path : String)
      (h : ∀ fs, .object fs ∈ xs → Cover K table table' .object fs) : Follows (Again (Node.KeysIn K))
      ((checkItems ⟨table, functions, limit⟩ key depth path 0 xs).map (Grammar.junction key))
      ((checkItems ⟨table', functions, limit⟩ key depth path 0 xs).map (Grammar.junction key)) := by
    refine map_again (checkItems_again hxs h key depth path 0) fun ns hns => ?_
    unfold Grammar.junction
    split <;> exact hns
  rcases hv with rfl | rfl <;>
    exact {
      negated := fun _ _ => .error _ _
      condition := fun _ _ _ => .ok ⟨trivial, rfl⟩
      junction := fun key depth path h => hjunction key depth path (h xs rfl)
      not := fun _ _ _ => .error _ _
      object := fun _ _ _ _ hv => nomatch hv }

theorem checksAgain_of_entries (hes : ∀ e ∈ es, ChecksAgain K table table' functions limit e.2) :
    ChecksAgain K table table' functions limit (.object es) where
  negated path h := by
    rw [checkNegated, checkNegated]
    refine ite_again (fun _ => .error _ _) fun hshape => ?_
    simp only [Bool.or_eq_true, Bool.not_eq_true', not_or, Bool.not_eq_false, List.all_eq_true] at hshape
    exact map_again (checkTests_again hes hshape.2 (h es rfl) _ _) fun ts hts => hts
  condition depth path h := by
    rw [checkCondition, checkCondition]
    refine ite_again (fun _ => .error _ _) fun hmixed => ite_again (fun hoperators => ?_) fun hoperators => ?_
    · have hkeys := isOperatorKey_of_unmixed hmixed hoperators
      exact map_again (checkTests_again hes hkeys (h es rfl) _ _) fun ts hts => hts
    · have hkeys : ∀ e ∈ es, isOperatorKey e.1 = false := by simpa using hoperators
      have hobject : Cover K table table' .object es := fun q key hin => h es rfl q key (usesIn_field hin hkeys)
      exact map_again (object_again hes hobject _ _ _) fun n hn => hn
  junction _ _ _ _ := .error _ _
  not depth path h := map_again (object_again hes (h es rfl) _ _ _) fun n hn => hn
  object depth path part := by
    rintro _ ⟨rfl⟩ h
    exact object_again hes h depth path part

theorem checksAgain (v : Value) : ChecksAgain K table table' functions limit v := by
  induction v using Value.induction with
  | step v ih =>
    cases v with
    | list xs => exact checksAgain_of_items ih (.inl rfl)
    | tuple xs => exact checksAgain_of_items ih (.inr rfl)
    | object es => exact checksAgain_of_entries fun e he => ih _ (Value.mem_parts_object he).2
    | _ =>
      exact {
        negated := fun _ _ => .ok ⟨trivial, rfl⟩
        condition := fun _ _ _ => .ok ⟨trivial, rfl⟩
        junction := fun _ _ _ _ => .error _ _
        not := fun _ _ _ => .error _ _
        object := fun _ _ _ _ hv => nomatch hv }

end Grammar

variable {K : String → Prop} {table table' : Table} {functions : Functions} {x depth : Value}

/-- What is accepted with one table is accepted, as the same tree, with any that holds the same operators under
the keys that are used; the logical ones are not looked up. The tree has no other keys. -/
theorem validate_again
    (hx : ∀ q key, x.Uses q key → IsLogical q key ∨ K key ∧ table.find? key = table'.find? key) :
    Outcome.Follows (Grammar.Again (Node.KeysIn K)) (validate table functions depth x)
      (validate table' functions depth x) := by
  refine .bind (R := Eq) (.of_eq (fun _ => rfl) rfl) ?_
  rintro limit _ rfl
  cases x with
  | object es =>
    refine (Grammar.checksAgain _).object 1 "" _ rfl fun q key hin => hx q key ⟨es, rfl, hin⟩
  | callable c =>
    cases c with
    | function name => exact .ok ⟨trivial, rfl⟩
    | type name => exact .error _ _
  | text | int | float | bool | null | date | moment => exact .ok ⟨trivial, rfl⟩
  | _ => exact .error _ _

end Winnow
