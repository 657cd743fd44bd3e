import Winnow.Scan
/-! # Scans that go the same way

Two scans of the same items whose tests agree, on states that stay related, find the same items, read the
same number of them and fail alike. A scan finds items that pass, in order and no more than are wanted; where no
test fails, these are the first that pass. -/

namespace Winnow.Scan

variable {σ τ α : Type} {R : σ → τ → Prop}

/-- Did two scans go the same way, and are the states that they left related? -/
structure Alike (R : σ → τ → Prop) (r : Scan σ α) (r' : Scan τ α) : Prop where
  found : r.found = r'.found
  read : r.read = r'.read
  failure : r.failure = r'.failure
  state : R r.state r'.state

theorem Alike.outcome {r : Scan σ α} {r' : Scan τ α} (h : Alike R r r') : r.outcome = r'.outcome := by
  rw [Scan.outcome, Scan.outcome, h.failure, h.found]

theorem Alike.keeping {r : Scan σ α} {r' : Scan τ α} (h : Alike R r r') (x : α) :
    Alike R (r.keeping x) (r'.keeping x) :=
  ⟨congrArg (x :: ·) h.found, congrArg (· + 1) h.read, h.failure, h.state⟩

theorem Alike.dropping {r : Scan σ α} {r' : Scan τ α} (h : Alike R r r') :
    Alike R r.dropping r'.dropping :=
  ⟨h.found, congrArg (· + 1) h.read, h.failure, h.state⟩

theorem run_alike (test : σ → α → Outcome Bool × σ) (test' : τ → α → Outcome Bool × τ)
    (step : ∀ s t x, R s t → (test s x).1 = (test' t x).1 ∧ R (test s x).2 (test' t x).2)
    (xs : List α) {s : σ} {t : τ} (h : R s t) (wanted : Option Nat) :
    Alike R (run test s wanted xs) (run test' t wanted xs) := by
  induction xs generalizing s t wanted with
  | nil => rw [run_nil, run_nil]; exact ⟨rfl, rfl, rfl, h⟩
  | cons x xs ih =>
    by_cases hw : wanted = some 0
    · subst hw; rw [run_zero, run_zero]; exact ⟨rfl, rfl, rfl, h⟩
    obtain ⟨hout, hstate⟩ := step s t x h
    rw [run, run]
    · revert hout hstate
      rcases test s x with ⟨_ | _ | _, s'⟩ <;> rcases test' t x with ⟨_ | _ | _, t'⟩ <;>
        intro hout hstate <;> simp only [Except.error.injEq, Except.ok.injEq, reduceCtorEq] at hout
      · exact ⟨rfl, rfl, congrArg some hout, hstate⟩
      · exact (ih hstate wanted).dropping
      · exact (ih hstate (wanted.map (· - 1))).keeping x
    · exact fun h0 => hw h0
    · exact fun h0 => hw h0

/-- A state that every test keeps is kept by a scan. -/
theorem run_state {J : σ → Prop} (test : σ → α → Outcome Bool × σ)
    (step : ∀ s x, J s → J (test s x).2) {s : σ} (hs : J s) (wanted : Option Nat) (xs : List α) :
    J (run test s wanted xs).state :=
  (run_alike test test (R := fun s t => J s ∧ s = t)
    (fun s t x hst => by rw [← hst.2]; exact ⟨rfl, step s x hst.1, rfl⟩)
    xs ⟨hs, rfl⟩ wanted).state.1

/-! ## Scans that do not fail -/

theorem outcome_eq_ok {r : Scan σ α} {found : List α} :
    r.outcome = .ok found ↔ r.failure = none ∧ r.found = found := by
  unfold outcome
  split <;> next h => simp [h]

theorem outcome_eq_error {r : Scan σ α} {f : Failure} : r.outcome = .error f ↔ r.failure = some f := by
  unfold outcome
  split <;> next h => simp [h]

theorem run_none_cons (test : σ → α → Outcome Bool × σ) (s : σ) (x : α) (xs : List α) :
    run test s none (x :: xs) = match test s x with
      | (.error e, s) => ⟨[], 1, some e, s⟩
      | (.ok true, s) => (run test s none xs).keeping x
      | (.ok false, s) => (run test s none xs).dropping := rfl

/-- What every test that comes to a result keeps, with the numbers of items that were looked at and that were
found, holds at the end of a scan that does not fail. -/
theorem run_counted {J : Nat → Nat → σ → Prop} (test : σ → α → Outcome Bool × σ)
    (step : ∀ read found s x b s', J read found s → test s x = (.ok b, s') →
      J (read + 1) (found + b.toNat) s')
    (xs : List α) {read found : Nat} {s : σ} (hs : J read found s)
    (hok : (run test s none xs).failure = none) :
    J (read + xs.length) (found + (run test s none xs).found.length) (run test s none xs).state := by
  induction xs generalizing read found s with
  | nil => rwa [run_nil]
  | cons x xs ih =>
    rw [run_none_cons] at hok ⊢
    rw [List.length_cons, Nat.add_comm xs.length, ← Nat.add_assoc]
    rcases htest : test s x with ⟨_ | _ | _, s'⟩ <;> rw [htest] at hok
    · cases hok
    · exact ih (step _ _ _ _ _ _ hs htest) hok
    · have hrest := ih (step _ _ _ _ _ _ hs htest) hok
      rwa [Bool.toNat_true, Nat.add_assoc found, Nat.add_comm 1] at hrest

/-- The items up to a limit, if there is one. -/
def upTo : Option Nat → List α → List α
  | none, xs => xs
  | some n, xs => xs.take n

@[simp] theorem upTo_none (xs : List α) : upTo none xs = xs := rfl

@[simp] theorem upTo_some (n : Nat) (xs : List α) : upTo (some n) xs = xs.take n := rfl

@[simp] theorem upTo_nil (limit : Option Nat) : upTo limit ([] : List α) = [] := by
  cases limit with
  | none => rfl
  | some n => exact List.take_nil

theorem upTo_cons (limit : Option Nat) (hl : limit ≠ some 0) (x : α) (xs : List α) :
    upTo limit (x :: xs) = x :: upTo (limit.map (· - 1)) xs := by
  rcases limit with _ | _ | n
  · rfl
  · exact absurd rfl hl
  · rfl

/-- How many items there are up to a limit depends on nothing but their number. -/
theorem length_upTo {β : Type} {xs : List α} {ys : List β} (h : xs.length = ys.length) (limit : Option Nat) :
    (upTo limit xs).length = (upTo limit ys).length := by
  cases limit with
  | none => exact h
  | some n => rw [upTo_some, upTo_some, List.length_take, List.length_take, h]

theorem upTo_upTo (limit : Option Nat) (xs : List α) : upTo limit (upTo limit xs) = upTo limit xs := by
  cases limit with
  | none => rfl
  | some n => rw [upTo_some, upTo_some, List.take_take, Nat.min_self]

theorem upTo_sublist (limit : Option Nat) (xs : List α) : (upTo limit xs).Sublist xs := by
  cases limit with
  | none => exact .refl xs
  | some n => exact List.take_sublist n xs

/-- What a scan finds passes, stands in the order of the items, and is no more than is wanted. -/
theorem found_spec (test : α → Outcome Bool) (xs : List α) (wanted : Option Nat) :
    let found := (run (fun (_ : Unit) x => (test x, ())) () wanted xs).found
    (∀ x ∈ found, test x = .ok true) ∧ found.Sublist xs ∧ upTo wanted found = found := by
  induction xs generalizing wanted with
  | nil =>
    rw [run_nil]
    exact ⟨nofun, .slnil, upTo_nil wanted⟩
  | cons x xs ih =>
    by_cases hw : wanted = some 0
    · subst hw
      rw [run_zero]
      exact ⟨nofun, List.nil_sublist _, rfl⟩
    rw [run]
    · rcases htest : test x with f | _ | _
      · exact ⟨nofun, List.nil_sublist _, upTo_nil wanted⟩
      · obtain ⟨hpass, hsub, hlimit⟩ := ih wanted
        exact ⟨hpass, hsub.cons x, hlimit⟩
      · obtain ⟨hpass, hsub, hlimit⟩ := ih (wanted.map (· - 1))
        refine ⟨List.forall_mem_cons.2 ⟨htest, hpass⟩, hsub.cons_cons x, ?_⟩
        exact (upTo_cons wanted hw x _).trans (congrArg (x :: ·) hlimit)
    · exact fun h0 => hw h0

theorem run_of_total (test : α → Outcome Bool) (p : α → Bool) (xs : List α)
    (h : ∀ x ∈ xs, test x = .ok (p x)) (wanted : Option Nat) :
    (run (fun (_ : Unit) x => (test x, ())) () wanted xs).failure = none ∧
      (run (fun (_ : Unit) x => (test x, ())) () wanted xs).found = upTo wanted (xs.filter p) := by
  induction xs generalizing wanted with
  | nil => rw [run_nil, List.filter_nil, upTo_nil]; exact ⟨rfl, rfl⟩
  | cons x xs ih =>
    by_cases hw : wanted = some 0
    · subst hw; rw [run_zero]; exact ⟨rfl, rfl⟩
    have hx := h x (List.mem_cons_self ..)
    have ih := ih fun y hy => h y (List.mem_cons_of_mem _ hy)
    rw [run]
    · rcases hp : p x <;> rw [hp] at hx <;> simp only [hx]
      · rw [List.filter_cons_of_neg (by rw [hp]; decide)]
        exact ih wanted
      · rw [List.filter_cons_of_pos hp, upTo_cons wanted hw]
        obtain ⟨hfailure, hfound⟩ := ih (wanted.map (· - 1))
        exact ⟨hfailure, congrArg (x :: ·) hfound⟩
    · exact fun h0 => hw h0

section

variable {test : α → Outcome Bool} {xs : List α} {wanted : Option Nat} {f : Failure}

/-- A scan for as many as there are looks at all items that any scan looks at. -/
theorem failure_of_wanted (h : (run (fun (_ : Unit) x => (test x, ())) () wanted xs).failure = some f) :
    (run (fun (_ : Unit) x => (test x, ())) () none xs).failure = some f := by
  induction xs generalizing wanted with
  | nil =>
    rw [run_nil] at h
    cases h
  | cons x xs ih =>
    by_cases hw : wanted = some 0
    · subst hw
      rw [run_zero] at h
      cases h
    rw [run_none_cons]
    rw [run] at h
    · rcases htest : test x with g | _ | _ <;> simp only [htest] at h ⊢
      · exact h
      · exact ih h
      · exact ih h
    · exact fun h0 => hw h0

theorem passes_of_failure_eq_none (h : (run (fun (_ : Unit) x => (test x, ())) () none xs).failure = none) :
    ∀ x ∈ xs, ∃ b, test x = .ok b := by
  induction xs with
  | nil => exact List.forall_mem_nil _
  | cons x xs ih =>
    rw [run_none_cons] at h
    rw [List.forall_mem_cons]
    rcases htest : test x with g | _ | _ <;> simp only [htest] at h
    · cases h
    · exact ⟨⟨_, rfl⟩, ih h⟩
    · exact ⟨⟨_, rfl⟩, ih h⟩

end

end Winnow.Scan
