import Winnow.Failure
import Winnow.Proofs.Lists
/-! # Outcomes taken apart

What it means that a chain of steps succeeded, and what one step does to the next. -/

namespace Winnow.Outcome

variable {ε α β : Type} {x : Except ε α}

@[simp] theorem ok_bind (a : α) (f : α → Except ε β) : (Except.ok a >>= f) = f a := rfl

@[simp] theorem error_bind (e : ε) (f : α → Except ε β) : (Except.error e >>= f) = .error e := rfl

@[simp] theorem pure_eq (a : α) : (pure a : Except ε α) = .ok a := rfl

@[simp] theorem throw_eq (e : ε) : (throw e : Except ε α) = .error e := rfl

@[simp] theorem map_ok (a : α) (f : α → β) : (Except.ok a : Except ε α).map f = .ok (f a) := rfl

@[simp] theorem map_error (e : ε) (f : α → β) : (Except.error e : Except ε α).map f = .error e := rfl

theorem bind_pure_eq (f : α → β) : (x >>= fun a => pure (f a)) = x.map f := by
  cases x <;> rfl

theorem bind_eq_ok {f : α → Except ε β} {b : β} :
    x >>= f = .ok b ↔ ∃ a, x = .ok a ∧ f a = .ok b := by
  cases x <;> simp

theorem bind_eq_error {f : α → Except ε β} {e : ε} :
    x >>= f = .error e ↔ x = .error e ∨ ∃ a, x = .ok a ∧ f a = .error e := by
  cases x <;> simp

theorem map_eq_ok {f : α → β} {b : β} : x.map f = .ok b ↔ ∃ a, x = .ok a ∧ f a = b := by
  cases x <;> simp

theorem map_eq_error {f : α → β} {e : ε} : x.map f = .error e ↔ x = .error e := by
  cases x <;> simp

theorem exists_map_eq_ok {f : α → β} : (∃ b, x.map f = .ok b) ↔ ∃ a, x = .ok a := by
  cases x <;> simp

/-- A chain succeeds when its first part does, if the second does whatever the first gives or in no case. -/
theorem exists_bind_eq_ok {f : α → Except ε β} {p : Prop} (hf : ∀ a, (∃ b, f a = .ok b) ↔ p) :
    (∃ b, x >>= f = .ok b) ↔ (∃ a, x = .ok a) ∧ p := by
  cases x with
  | ok a => simp [hf]
  | error e => simp

theorem map_bind {γ : Type} {f : α → Except ε β} {g : β → γ} : (x >>= f).map g = x >>= fun a => (f a).map g := by
  cases x <;> rfl

theorem exists_eq_ok (h : x.toOption.isSome = true) : ∃ a, x = .ok a := by
  cases x with
  | ok a => exact ⟨a, rfl⟩
  | error e => cases h

theorem mem_toList {a : α} : a ∈ x.toOption.toList ↔ x = .ok a := by
  cases x <;> simp [Except.toOption, eq_comm]

/-! ## Kinds of failures -/

/-- Is the outcome, if it is a failure, one of a kind? -/
def FailsAs (P : ε → Prop) (x : Except ε α) : Prop := ∀ e, x = .error e → P e

section

variable {P : ε → Prop}

@[simp] theorem failsAs_ok (a : α) : FailsAs P (.ok a : Except ε α) := fun _ h => nomatch h

@[simp] theorem failsAs_error {e : ε} : FailsAs P (.error e : Except ε α) ↔ P e :=
  ⟨fun h => h e rfl, fun h _ he => Except.error.inj he ▸ h⟩

@[simp] theorem failsAs_map {f : α → β} : FailsAs P (x.map f) ↔ FailsAs P x := by
  cases x <;> simp

theorem failsAs_bind {f : α → Except ε β} :
    FailsAs P (x >>= f) ↔ FailsAs P x ∧ ∀ a, x = .ok a → FailsAs P (f a) := by
  cases x <;> simp

end

/-! ## Outcomes of lists -/

theorem mapM_eq_ok {f : α → Except ε β} {xs : List α} {ys : List β} :
    xs.mapM f = .ok ys ↔ List.Forall₂ (fun x y => f x = .ok y) xs ys := by
  induction xs generalizing ys with
  | nil => simp [eq_comm]
  | cons x xs ih =>
    simp only [List.mapM_cons, bind_eq_ok, ih, List.forall₂_cons_left_iff, pure_eq, Except.ok.injEq]
    constructor
    · rintro ⟨y, hy, ys, hys, rfl⟩
      exact ⟨y, ys, hy, hys, rfl⟩
    · rintro ⟨y, ys, hy, hys, rfl⟩
      exact ⟨y, hy, ys, hys, rfl⟩

theorem exists_mapM_eq_ok {f : α → Except ε β} {xs : List α} :
    (∃ ys, xs.mapM f = .ok ys) ↔ ∀ x ∈ xs, ∃ y, f x = .ok y := by
  simp only [mapM_eq_ok]
  induction xs with
  | nil => simp
  | cons x xs ih => simp [List.forall₂_cons_left_iff, ← ih]

theorem failsAs_mapM {P : ε → Prop} {f : α → Except ε β} {xs : List α} (h : ∀ x ∈ xs, FailsAs P (f x)) :
    FailsAs P (xs.mapM f) := by
  induction xs with
  | nil => exact failsAs_ok _
  | cons x xs ih =>
    obtain ⟨hx, hxs⟩ := List.forall_mem_cons.1 h
    rw [List.mapM_cons]
    exact failsAs_bind.2 ⟨hx, fun _ _ => failsAs_bind.2 ⟨ih hxs, fun _ _ => failsAs_ok _⟩⟩

/-! ## Outcomes side by side -/

/-- Is it the same failure twice, or two results that are related? -/
inductive Both (R : α → β → Prop) : Except ε α → Except ε β → Prop
  | ok {a : α} {b : β} (h : R a b) : Both R (.ok a) (.ok b)
  | error (e : ε) : Both R (.error e) (.error e)

namespace Both

variable {γ δ : Type} {R : α → β → Prop} {S : γ → δ → Prop} {y : Except ε β}

theorem bind (h : Both R x y) {f : α → Except ε γ} {g : β → Except ε δ}
    (hfg : ∀ a b, R a b → Both S (f a) (g b)) :
    Both S (x >>= f) (y >>= g) := by
  cases h with
  | ok h => exact hfg _ _ h
  | error e => exact .error e

theorem ite {c c' : Prop} [Decidable c] [Decidable c'] (hc : c ↔ c') {x' : Except ε α} {y' : Except ε β}
    (hx : Both R x y) (hx' : Both R x' y') : Both R (if c then x else x') (if c' then y else y') := by
  by_cases h : c
  · rwa [if_pos h, if_pos (hc.1 h)]
  · rwa [if_neg h, if_neg (mt hc.2 h)]

theorem error_iff (h : Both R x y) {e : ε} : x = .error e ↔ y = .error e := by
  cases h <;> simp

end Both

/-- Where the first succeeds, does the second too, with a related result? -/
inductive Follows (R : α → β → Prop) : Except ε α → Except ε β → Prop
  | ok {a : α} {b : β} (h : R a b) : Follows R (.ok a) (.ok b)
  | error (e : ε) (y : Except ε β) : Follows R (.error e) y

namespace Follows

variable {γ δ : Type} {R R' : α → β → Prop} {S : γ → δ → Prop} {y : Except ε β}

theorem mono (h : Follows R x y) (hR : ∀ a b, R a b → R' a b) : Follows R' x y := by
  cases h with
  | ok h => exact .ok (hR _ _ h)
  | error e y => exact .error e y

theorem of_eq {R : α → α → Prop} {y : Except ε α} (hR : ∀ a, R a a) (h : x = y) : Follows R x y := by
  subst h
  cases x with
  | ok a => exact .ok (hR a)
  | error e => exact .error e _

theorem bind (h : Follows R x y) {f : α → Except ε γ} {g : β → Except ε δ}
    (hfg : ∀ a b, R a b → Follows S (f a) (g b)) : Follows S (x >>= f) (y >>= g) := by
  cases h with
  | ok h => exact hfg _ _ h
  | error e y => exact .error e _

theorem map (h : Follows R x y) {f : α → γ} {g : β → δ} (hfg : ∀ a b, R a b → S (f a) (g b)) :
    Follows S (x.map f) (y.map g) := by
  cases h with
  | ok h => exact .ok (hfg _ _ h)
  | error e y => exact .error e _

theorem ite {c c' : Prop} [Decidable c] [Decidable c'] (hc : c ↔ c') {x' : Except ε α} {y' : Except ε β}
    (hx : Follows R x y) (hx' : Follows R x' y') : Follows R (if c then x else x') (if c' then y else y') := by
  by_cases h : c
  · rwa [if_pos h, if_pos (hc.1 h)]
  · rwa [if_neg h, if_neg (mt hc.2 h)]

theorem exists_ok {a : α} (h : Follows R x y) (hx : x = .ok a) : ∃ b, y = .ok b ∧ R a b := by
  cases h with
  | ok h =>
    cases hx
    exact ⟨_, rfl, h⟩
  | error e y => cases hx

theorem of_forall (h : ∀ a, x = .ok a → ∃ b, y = .ok b ∧ R a b) : Follows R x y := by
  cases x with
  | ok a =>
    obtain ⟨b, rfl, hab⟩ := h a rfl
    exact .ok hab
  | error e => exact .error e y

theorem mapM {f : α → Except ε γ} {g : β → Except ε δ} {xs : List α} {ys : List β} (h : List.Forall₂ R xs ys)
    (hfg : ∀ x ∈ xs, ∀ y, R x y → Follows S (f x) (g y)) :
    Follows (List.Forall₂ S) (xs.mapM f) (ys.mapM g) := by
  induction h with
  | nil => exact .ok .nil
  | cons hxy _ ih =>
    rw [List.mapM_cons, List.mapM_cons]
    refine .bind (hfg _ (List.mem_cons_self ..) _ hxy) fun a b hab => ?_
    refine .bind (ih fun x hx => hfg x (List.mem_cons_of_mem _ hx)) fun as bs habs => ?_
    exact .ok (.cons hab habs)

/-- Items with counterparts, in whatever order, have results with counterparts. -/
theorem mapM_paired {f : α → Except ε γ} {g : β → Except ε δ} {xs : List α} {ys : List β} (h : Paired R xs ys)
    (hfg : ∀ x ∈ xs, ∀ y ∈ ys, R x y → Follows S (f x) (g y)) : Follows (Paired S) (xs.mapM f) (ys.mapM g) := by
  refine of_forall fun cs hcs => ?_
  have hcs := mapM_eq_ok.1 hcs
  have hresult (x : α) (hx : x ∈ xs) : ∃ c ∈ cs, f x = .ok c := (Paired.of_forall₂ hcs).1 x hx
  have hresults : ∀ y ∈ ys, ∃ d, g y = .ok d := by
    intro y hy
    obtain ⟨x, hx, hxy⟩ := h.2 y hy
    obtain ⟨c, -, hc⟩ := hresult x hx
    obtain ⟨d, hd, -⟩ := (hfg x hx y hy hxy).exists_ok hc
    exact ⟨d, hd⟩
  obtain ⟨ds, hds⟩ := exists_mapM_eq_ok.2 hresults
  have hds' := Paired.of_forall₂ (mapM_eq_ok.1 hds)
  refine ⟨ds, hds, fun c hc => ?_, fun d hd => ?_⟩
  · obtain ⟨x, hx, hxc⟩ := (Paired.of_forall₂ hcs).2 c hc
    obtain ⟨y, hy, hxy⟩ := h.1 x hx
    obtain ⟨d, hd, hyd⟩ := hds'.1 y hy
    obtain ⟨d', hd', hcd⟩ := (hfg x hx y hy hxy).exists_ok hxc
    cases hyd.symm.trans hd'
    exact ⟨d, hd, hcd⟩
  · obtain ⟨y, hy, hyd⟩ := hds'.2 d hd
    obtain ⟨x, hx, hxy⟩ := h.2 y hy
    obtain ⟨c, hc, hxc⟩ := hresult x hx
    obtain ⟨d', hd', hcd⟩ := (hfg x hx y hy hxy).exists_ok hxc
    cases hyd.symm.trans hd'
    exact ⟨c, hc, hcd⟩

end Follows

end Winnow.Outcome
