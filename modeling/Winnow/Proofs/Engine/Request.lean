import Winnow.Proofs.Outcome
import Winnow.Engine.Basic
/-! # Requests and what they ensure

`Ensures I r Q`: from every engine with `I`, the request `r` leaves an engine with `I` and has an outcome
with `Q`. A chain of requests ensures what its last one does, if each part keeps `I`. -/

namespace Winnow.Request

variable {α β : Type} {e : Engine}

/-! ## Running requests -/

@[simp] theorem done_run (x : Outcome α) : done x e = (x, e) := rfl

@[simp] theorem pure_run (a : α) : (pure a : Request α) e = (.ok a, e) := rfl

@[simp] theorem update_run (g : Engine → Engine) : update g e = (.ok (), g e) := rfl

@[simp] theorem engine_bind (f : Engine → Request β) : (engine >>= f) e = f e e := rfl

@[simp] theorem update_bind (g : Engine → Engine) (f : Unit → Request β) :
    (update g >>= f) e = f () (g e) := rfl

@[simp] theorem note_bind (n : Notice) (f : Unit → Request β) :
    (note n >>= f) e = f () { e with notices := e.notices ++ [n] } := rfl

@[simp] theorem lift_ok_bind (a : α) (f : α → Request β) :
    ((liftM (Except.ok a : Outcome α) : Request α) >>= f) e = f a e := rfl

@[simp] theorem lift_error_bind (x : Failure) (f : α → Request β) :
    ((liftM (Except.error x : Outcome α) : Request α) >>= f) e = (.error x, e) := rfl

theorem ok_bind_run {r : Request α} {a : α} {e' : Engine} (h : r e = (.ok a, e')) (f : α → Request β) :
    (r >>= f) e = f a e' := by
  show Request.bind r f e = _
  rw [Request.bind, h]

theorem bind_assoc {γ : Type} (r : Request α) (f : α → Request β) (g : β → Request γ) :
    (r >>= f) >>= g = r >>= fun a => f a >>= g := by
  funext e
  show bind (bind r f) g e = bind r (fun a => bind (f a) g) e
  simp only [bind]
  rcases r e with ⟨x | a, e'⟩ <;> rfl

/-! ## What requests ensure -/

variable {I : Engine → Prop} {r : Request α} {Q : Outcome α → Prop}

/-- Does the request keep `I`, and has it only outcomes with `Q`? -/
def Ensures (I : Engine → Prop) (r : Request α) (Q : Outcome α → Prop) : Prop :=
  ∀ e, I e → I (r e).2 ∧ Q (r e).1

/-- Does the request keep `I`? -/
abbrev Keeps (I : Engine → Prop) (r : Request α) : Prop := Ensures I r fun _ => True

theorem Ensures.mono {Q' : Outcome α → Prop} (h : Ensures I r Q) (hQ : ∀ x, Q x → Q' x) :
    Ensures I r Q' :=
  fun e he => ⟨(h e he).1, hQ _ (h e he).2⟩

theorem Ensures.of_iff {I' : Engine → Prop} (hI : ∀ e, I e ↔ I' e) (h : Ensures I' r Q) : Ensures I r Q := by
  intro e he
  obtain ⟨hkept, hQ⟩ := h e ((hI e).1 he)
  exact ⟨(hI _).2 hkept, hQ⟩

theorem Ensures.keeps (h : Ensures I r Q) : Keeps I r := h.mono fun _ _ => trivial

theorem ensures_done {x : Outcome α} (h : Q x) : Ensures I (done x) Q := fun _ he => ⟨he, h⟩

theorem ensures_pure {a : α} (h : Q (.ok a)) : Ensures I (pure a) Q := ensures_done h

theorem Ensures.bind {f : α → Request β} {Q' : Outcome β → Prop} (h : Ensures I r Q)
    (hok : ∀ a, Q (.ok a) → Ensures I (f a) Q') (herr : ∀ x, Q (.error x) → Q' (.error x)) :
    Ensures I (r >>= f) Q' := by
  intro e he
  obtain ⟨hI, hQ⟩ := h e he
  show I (Request.bind r f e).2 ∧ Q' (Request.bind r f e).1
  unfold Request.bind
  revert hI hQ
  rcases r e with ⟨x | a, e'⟩ <;> intro hI hQ
  · exact ⟨hI, herr x hQ⟩
  · exact hok a hQ e' hI

theorem Keeps.bind {f : α → Request β} (h : Keeps I r) (hf : ∀ a, Keeps I (f a)) : Keeps I (r >>= f) :=
  Ensures.bind h (fun a _ => hf a) fun _ _ => trivial

theorem lift_ensures (x : Outcome α) : Ensures I (liftM x : Request α) (· = x) := fun _ he => ⟨he, rfl⟩

/-- A chain comes to what its second part makes of an outcome of the first. -/
theorem Ensures.comesTo {f : α → Request β} {g : α → Outcome β} (h : Ensures I r Q)
    (hf : ∀ a, Q (.ok a) → Ensures I (f a) (· = g a)) :
    Ensures I (r >>= f) fun x => ∃ y, Q y ∧ x = y >>= g :=
  h.bind (fun a ha => (hf a ha).mono fun _ hx => ⟨.ok a, ha, hx⟩) fun _ hx => ⟨_, hx, rfl⟩

theorem Ensures.map {x : Outcome α} (h : Ensures I r (· = x)) (g : α → β) :
    Ensures I (r >>= fun a => pure (g a)) (· = x.map g) := by
  refine h.bind (fun a ha => ensures_pure ?_) fun f hf => ?_
  · rw [← ha]; rfl
  · rw [← hf]; rfl

/-- Before a request stands an argument that is read. -/
theorem Ensures.afterLift {x : Outcome α} {f : α → Request β} {Q : α → Outcome β → Prop}
    (h : ∀ a, x = .ok a → Ensures I (f a) (Q a)) :
    Ensures I ((liftM x : Request α) >>= f) fun y => ∀ a, x = .ok a → Q a y := by
  rcases x with e | a
  · exact fun _ he => ⟨he, fun _ ha => nomatch ha⟩
  · exact (h a rfl).mono fun y hy a' ha' => Except.ok.inj ha' ▸ hy

end Winnow.Request
