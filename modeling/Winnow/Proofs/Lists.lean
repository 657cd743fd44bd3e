import Mathlib.Data.List.Forall2
import Mathlib.Data.List.Perm.Basic
import Mathlib.Data.Set.List
/-! # Lists mapped, related item by item and reordered

Mapping two lists to the same list relates their items, and related items are mapped to the same list. -/

namespace Winnow

variable {α β γ : Type} {R : α → β → Prop} {f : α → γ} {g : β → γ} {xs : List α} {ys : List β}

theorem forall₂_of_map_eq (h : xs.map f = ys.map g) (hR : ∀ x ∈ xs, ∀ y ∈ ys, f x = g y → R x y) :
    List.Forall₂ R xs ys := by
  induction xs generalizing ys with
  | nil =>
    obtain rfl := List.map_eq_nil_iff.1 h.symm
    exact .nil
  | cons x xs ih =>
    cases ys with
    | nil => cases h
    | cons y ys =>
      obtain ⟨hhead, htail⟩ := List.cons.inj h
      refine .cons (hR x (List.mem_cons_self ..) y (List.mem_cons_self ..) hhead) (ih htail ?_)
      intro x' hx y' hy
      exact hR x' (List.mem_cons_of_mem _ hx) y' (List.mem_cons_of_mem _ hy)

theorem map_eq_of_forall₂ (h : List.Forall₂ R xs ys) (hR : ∀ x ∈ xs, ∀ y ∈ ys, R x y → f x = g y) :
    xs.map f = ys.map g := by
  induction h with
  | nil => rfl
  | cons hxy _ ih =>
    rw [List.map_cons, List.map_cons, hR _ (List.mem_cons_self ..) _ (List.mem_cons_self ..) hxy, ih]
    intro x hx y hy
    exact hR x (List.mem_cons_of_mem _ hx) y (List.mem_cons_of_mem _ hy)

theorem forall₂_imp_of_mem {S : α → β → Prop} (h : List.Forall₂ R xs ys)
    (hRS : ∀ x ∈ xs, ∀ y ∈ ys, R x y → S x y) : List.Forall₂ S xs ys := by
  induction h with
  | nil => exact .nil
  | cons hxy _ ih =>
    refine .cons (hRS _ (List.mem_cons_self ..) _ (List.mem_cons_self ..) hxy) (ih ?_)
    intro x hx y hy
    exact hRS x (List.mem_cons_of_mem _ hx) y (List.mem_cons_of_mem _ hy)

/-- Lists related to one list are related, when items that are related to one item are. -/
theorem forall₂_of_forall₂ {S : β → β → Prop} {zs : List β} (h : List.Forall₂ R xs ys)
    (h' : List.Forall₂ R xs zs) (hR : ∀ x, ∀ y ∈ ys, ∀ z ∈ zs, R x y → R x z → S y z) :
    List.Forall₂ S ys zs := by
  induction h generalizing zs with
  | nil =>
    cases h'
    exact .nil
  | cons hxy _ ih =>
    cases h' with
    | cons hxz h' =>
      refine .cons (hR _ _ (List.mem_cons_self ..) _ (List.mem_cons_self ..) hxy hxz) (ih h' ?_)
      intro x y hy z hz
      exact hR x y (List.mem_cons_of_mem _ hy) z (List.mem_cons_of_mem _ hz)

theorem any_eq_of_forall₂ {p : α → Bool} {q : β → Bool} (h : List.Forall₂ R xs ys)
    (hR : ∀ x ∈ xs, ∀ y ∈ ys, R x y → p x = q y) : xs.any p = ys.any q := by
  have hmap := map_eq_of_forall₂ h hR
  rw [← Function.id_comp p, ← Function.id_comp q, ← List.any_map, ← List.any_map, hmap]

theorem all_eq_of_forall₂ {p : α → Bool} {q : β → Bool} (h : List.Forall₂ R xs ys)
    (hR : ∀ x ∈ xs, ∀ y ∈ ys, R x y → p x = q y) : xs.all p = ys.all q := by
  have hmap := map_eq_of_forall₂ h hR
  rw [← Function.id_comp p, ← Function.id_comp q, ← List.all_map, ← List.all_map, hmap]

theorem map_eq_self_iff {f : α → α} : xs.map f = xs ↔ ∀ x ∈ xs, f x = x := by
  have h := List.map_inj_left (l := xs) (f := f) (g := id)
  rwa [List.map_id] at h

theorem exists_map_eq {zs : List γ} (h : ∀ z ∈ zs, ∃ x, f x = z) : ∃ xs : List α, xs.map f = zs := by
  have hrange : zs ∈ Set.range (List.map f) := by
    rw [Set.range_list_map]
    exact h
  exact hrange

/-- Where at most one item has a property, the order of the items does not decide which is found. -/
theorem find?_eq_of_perm {p : α → Bool} {ys : List α} (hperm : xs.Perm ys)
    (hone : xs.Pairwise fun a b => ¬(p a = true ∧ p b = true)) : xs.find? p = ys.find? p := by
  induction hperm with
  | nil => rfl
  | cons x _ ih => rw [List.find?_cons, List.find?_cons, ih hone.of_cons]
  | swap x y xs =>
    rw [List.find?_cons, List.find?_cons, List.find?_cons, List.find?_cons]
    have hboth := (List.pairwise_cons.1 hone).1 x (List.mem_cons_self ..)
    cases hx : p x <;> cases hy : p y <;> first | rfl | exact absurd ⟨hy, hx⟩ hboth
  | trans h _ ih ih' =>
    exact (ih hone).trans (ih' ((h.pairwise_iff fun {a b} hab hba => hab hba.symm).1 hone))

/-- In lists that are related item by item related items are found, or none in either. -/
theorem find?_rel {p : α → Bool} {q : β → Bool} (h : List.Forall₂ R xs ys)
    (hpq : ∀ x y, R x y → p x = q y) : Option.Rel R (xs.find? p) (ys.find? q) := by
  induction h with
  | nil => exact .none
  | cons hxy _ ih =>
    rw [List.find?_cons, List.find?_cons, ← hpq _ _ hxy]
    split
    · exact .some hxy
    · exact ih

/-- Lists whose items stand alike to all are alike. -/
theorem forall₂_right_congr {S : β → γ → Prop} {Q : α → γ → Prop} {zs : List γ} (h : List.Forall₂ S ys zs)
    (hS : ∀ y ∈ ys, ∀ z, S y z → ∀ x, R x y ↔ Q x z) : List.Forall₂ R xs ys ↔ List.Forall₂ Q xs zs := by
  induction h generalizing xs with
  | nil => rw [List.forall₂_nil_right_iff, List.forall₂_nil_right_iff]
  | cons hyz _ ih =>
    rw [List.forall₂_cons_right_iff, List.forall₂_cons_right_iff]
    refine exists₂_congr fun x rest => ?_
    rw [hS _ (List.mem_cons_self ..) _ hyz x, ih fun y hy => hS y (List.mem_cons_of_mem _ hy)]

/-- Has every item of either list a counterpart in the other? -/
def Paired (R : α → β → Prop) (xs : List α) (ys : List β) : Prop :=
  (∀ x ∈ xs, ∃ y ∈ ys, R x y) ∧ ∀ y ∈ ys, ∃ x ∈ xs, R x y

namespace Paired

theorem of_forall₂ (h : List.Forall₂ R xs ys) : Paired R xs ys := by
  induction h with
  | nil => exact ⟨fun _ hx => (nomatch hx), fun _ hy => (nomatch hy)⟩
  | cons hxy _ ih =>
    rw [Paired, List.forall_mem_cons, List.forall_mem_cons]
    refine ⟨⟨⟨_, List.mem_cons_self .., hxy⟩, fun x hx => ?_⟩, ⟨_, List.mem_cons_self .., hxy⟩, fun y hy => ?_⟩
    · obtain ⟨y, hy, hxy⟩ := ih.1 x hx
      exact ⟨y, List.mem_cons_of_mem _ hy, hxy⟩
    · obtain ⟨x, hx, hxy⟩ := ih.2 y hy
      exact ⟨x, List.mem_cons_of_mem _ hx, hxy⟩

theorem of_perm {zs : List α} (hperm : xs.Perm zs) (h : Paired R zs ys) : Paired R xs ys := by
  refine ⟨fun x hx => h.1 x (hperm.mem_iff.1 hx), fun y hy => ?_⟩
  obtain ⟨x, hx, hxy⟩ := h.2 y hy
  exact ⟨x, hperm.mem_iff.2 hx, hxy⟩

theorem mono {S : α → β → Prop} (h : Paired R xs ys) (hRS : ∀ x ∈ xs, ∀ y ∈ ys, R x y → S x y) :
    Paired S xs ys := by
  refine ⟨fun x hx => ?_, fun y hy => ?_⟩
  · obtain ⟨y, hy, hxy⟩ := h.1 x hx
    exact ⟨y, hy, hRS x hx y hy hxy⟩
  · obtain ⟨x, hx, hxy⟩ := h.2 y hy
    exact ⟨x, hx, hRS x hx y hy hxy⟩

theorem map {δ : Type} {S : γ → δ → Prop} {f : α → γ} {g : β → δ} (h : Paired R xs ys)
    (hRS : ∀ x ∈ xs, ∀ y ∈ ys, R x y → S (f x) (g y)) : Paired S (xs.map f) (ys.map g) := by
  refine ⟨List.forall_mem_map.2 fun x hx => ?_, List.forall_mem_map.2 fun y hy => ?_⟩
  · obtain ⟨y, hy, hxy⟩ := h.1 x hx
    exact ⟨g y, List.mem_map.2 ⟨y, hy, rfl⟩, hRS x hx y hy hxy⟩
  · obtain ⟨x, hx, hxy⟩ := h.2 y hy
    exact ⟨f x, List.mem_map.2 ⟨x, hx, rfl⟩, hRS x hx y hy hxy⟩

/-- A test that does not tell items from their counterparts is passed by all items of both lists or of
neither. -/
theorem forall_iff {p : α → Prop} {q : β → Prop} (h : Paired R xs ys)
    (hpq : ∀ x ∈ xs, ∀ y ∈ ys, R x y → (p x ↔ q y)) : (∀ x ∈ xs, p x) ↔ ∀ y ∈ ys, q y := by
  constructor
  · intro hp y hy
    obtain ⟨x, hx, hxy⟩ := h.2 y hy
    exact (hpq x hx y hy hxy).1 (hp x hx)
  · intro hq x hx
    obtain ⟨y, hy, hxy⟩ := h.1 x hx
    exact (hpq x hx y hy hxy).2 (hq y hy)

end Paired

/-! ## States of a run -/

section Runs

variable {σ : Type} {step : σ → α → σ} {rank : σ → Nat} {s x y : σ} {as : List α}

theorem forall_mem_scanl {P : σ → Prop} (hstep : ∀ s a, P s → P (step s a)) (hs : P s) :
    ∀ x ∈ as.scanl step s, P x := by
  induction as generalizing s with
  | nil => simpa using hs
  | cons a as ih =>
    rw [List.scanl_cons, List.forall_mem_cons]
    exact ⟨hs, ih (hstep s a hs)⟩

variable (hstep : ∀ s a, step s a = s ∨ rank s < rank (step s a))
include hstep

theorem eq_or_lt_of_mem_scanl (hx : x ∈ as.scanl step s) : x = s ∨ rank s < rank x := by
  induction as generalizing s with
  | nil => exact .inl (List.mem_singleton.1 (List.scanl_nil ▸ hx))
  | cons a as ih =>
    rw [List.scanl_cons] at hx
    rcases List.mem_cons.1 hx with rfl | hx
    · exact .inl rfl
    · rcases hstep s a with hc | hc
      · exact ih (hc ▸ hx)
      · rcases ih hx with rfl | hlt
        · exact .inr hc
        · exact .inr (Nat.lt_trans hc hlt)

/-- Where a step that changes the state leads upwards, states of a run that are level are the same. -/
theorem eq_of_mem_scanl (hx : x ∈ as.scanl step s) (hy : y ∈ as.scanl step s) (hxy : rank x = rank y) : x = y := by
  induction as generalizing s with
  | nil =>
    rw [List.scanl_nil, List.mem_singleton] at hx hy
    rw [hx, hy]
  | cons a as ih =>
    have first {z : σ} (hz : z ∈ (a :: as).scanl step s) (hlevel : rank z = rank s) : z = s := by
      rcases eq_or_lt_of_mem_scanl hstep hz with rfl | hlt
      · rfl
      · omega
    rw [List.scanl_cons] at hx hy
    rcases List.mem_cons.1 hx with rfl | hx'
    · exact (first (List.scanl_cons ▸ hy) hxy.symm).symm
    · rcases List.mem_cons.1 hy with rfl | hy'
      · exact first (List.scanl_cons ▸ hx) hxy
      · exact ih hx' hy'

end Runs

end Winnow
