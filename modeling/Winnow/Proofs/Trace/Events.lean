import Winnow.Trace.Match
/-! # Where events come from

`Comes t a E`: traced matching may come to `a` with the events `E`, for some compiled patterns. Every event
counts for a part that the ledger names at or below the place where matching stands. When all addresses hold
objects of their own, the parts of a node lie at its own address and below its branches, so that the events of
one branch count for no other. -/

namespace Winnow

/-! ## Addresses -/

namespace Address

theorem branch_inj {p q : Address} {i j : Nat} : p.branch i = q.branch j ↔ p = q ∧ i = j := by
  simp [branch]

theorem prefix_branch (p : Address) (i : Nat) : p <+: p.branch i := ⟨[i], rfl⟩

/-- What lies below a branch lies below no other one. -/
theorem branch_eq_of_prefix {p q : Address} {i j : Nat} (hi : p.branch i <+: q) (hj : p.branch j <+: q) :
    i = j :=
  (branch_inj.1 ((List.prefix_of_prefix_length_le hi hj (by simp [branch])).eq_of_length
    (by simp [branch]))).2

theorem not_branch_prefix (p : Address) (i : Nat) : ¬p.branch i <+: p := fun h => by
  have hlength := h.length_le
  rw [branch, List.length_append] at hlength
  exact Nat.not_succ_le_self _ hlength

/-- Does an address lie below a branch from one on? -/
def BelowFrom (p : Address) (i : Nat) (q : Address) : Prop := ∃ j, i ≤ j ∧ p.branch j <+: q

namespace BelowFrom

variable {p q : Address} {i : Nat}

theorem head (h : p.branch i <+: q) : p.BelowFrom i q := ⟨i, Nat.le_refl i, h⟩

theorem tail (h : p.BelowFrom (i + 1) q) : p.BelowFrom i q := by
  obtain ⟨j, hj, hq⟩ := h
  exact ⟨j, by omega, hq⟩

theorem not_head (h : p.BelowFrom (i + 1) q) : ¬p.branch i <+: q := by
  obtain ⟨j, hj, hq⟩ := h
  intro hi
  have := branch_eq_of_prefix hi hq
  omega

theorem not_self : ¬p.BelowFrom i p := fun ⟨j, _, hq⟩ => p.not_branch_prefix j hq

theorem below (h : p.BelowFrom i q) : p <+: q := by
  obtain ⟨j, -, hq⟩ := h
  exact (p.prefix_branch j).trans hq

end BelowFrom

end Address

/-! ## What traced matching may come to -/

namespace Traced

variable {α β σ : Type}

/-- May it come to a result with these events? -/
def Comes : Traced α → α → List Event → Prop
  | done outcome, a, E => outcome = .ok a ∧ E = []
  | ask _ _ next, a, E => ∃ p, (next p).Comes a E
  | note event rest, a, E => ∃ E', rest.Comes a E' ∧ E = event :: E'

theorem comes_pure {a b : α} {E : List Event} : (pure a : Traced α).Comes b E ↔ a = b ∧ E = [] := by
  show Except.ok a = Except.ok b ∧ E = [] ↔ _
  rw [Except.ok.injEq]

theorem comes_bind {t : Traced α} {f : α → Traced β} {b : β} {E : List Event} :
    (t >>= f).Comes b E ↔ ∃ a E₁ E₂, t.Comes a E₁ ∧ (f a).Comes b E₂ ∧ E = E₁ ++ E₂ := by
  induction t generalizing E with
  | done outcome =>
    rcases outcome with e | a
    · constructor
      · exact fun h => nomatch h.1
      · exact fun ⟨_, _, _, h, _⟩ => nomatch h.1
    · constructor
      · exact fun h => ⟨a, [], E, ⟨rfl, rfl⟩, h, rfl⟩
      · rintro ⟨_, _, _, ⟨ha, rfl⟩, h, rfl⟩
        cases ha
        exact h
  | ask source flags next ih =>
    constructor
    · rintro ⟨p, h⟩
      obtain ⟨a, E₁, E₂, ht, hf, rfl⟩ := (ih p).1 h
      exact ⟨a, E₁, E₂, ⟨p, ht⟩, hf, rfl⟩
    · rintro ⟨a, E₁, E₂, ⟨p, ht⟩, hf, rfl⟩
      exact ⟨p, (ih p).2 ⟨a, E₁, E₂, ht, hf, rfl⟩⟩
  | note event rest ih =>
    constructor
    · rintro ⟨E', h, rfl⟩
      obtain ⟨a, E₁, E₂, ht, hf, rfl⟩ := ih.1 h
      exact ⟨a, event :: E₁, E₂, ⟨E₁, ht, rfl⟩, hf, rfl⟩
    · rintro ⟨a, _, E₂, ⟨E₁, ht, rfl⟩, hf, rfl⟩
      exact ⟨E₁ ++ E₂, ih.2 ⟨a, E₁, E₂, ht, hf, rfl⟩, rfl⟩

/-- Nothing is noted by an evaluation that is not traced. -/
theorem Comes.of_untraced {e : Evaluation α} {a : α} {E : List Event} (h : (untraced e).Comes a E) : E = [] := by
  induction e with
  | done outcome => exact h.2
  | ask source flags next ih =>
    obtain ⟨p, h⟩ := h
    exact ih p h

theorem comes_negation {t : Traced Bool} {b : Bool} {E : List Event} :
    t.negation.Comes b E ↔ t.Comes (!b) E := by
  simp only [negation, comes_bind, comes_pure]
  constructor
  · rintro ⟨a, E₁, _, h, ⟨rfl, rfl⟩, rfl⟩
    rwa [Bool.not_not, List.append_nil]
  · exact fun h => ⟨!b, E, [], h, ⟨Bool.not_not b, rfl⟩, (List.append_nil E).symm⟩

theorem comes_recordAt {address : Address} {t : Traced Bool} {b : Bool} {E : List Event} :
    (recordAt (some address) t).Comes b E ↔ ∃ E', t.Comes b E' ∧ E = E' ++ [⟨address, b⟩] := by
  simp only [recordAt, comes_bind]
  constructor
  · rintro ⟨a, E₁, _, h, ⟨_, ⟨hb, rfl⟩, rfl⟩, rfl⟩
    cases hb
    exact ⟨E₁, h, rfl⟩
  · rintro ⟨E', h, rfl⟩
    exact ⟨b, E', [⟨address, b⟩], h, ⟨[], ⟨rfl, rfl⟩, rfl⟩, rfl⟩

theorem comes_recordAt_none {t : Traced Bool} {b : Bool} {E : List Event} :
    (recordAt none t).Comes b E ↔ t.Comes b E := by
  simp only [recordAt, comes_bind, comes_pure]
  constructor
  · rintro ⟨a, E₁, _, h, ⟨rfl, rfl⟩, rfl⟩
    rwa [List.append_nil]
  · exact fun h => ⟨b, E, [], h, ⟨rfl, rfl⟩, (List.append_nil E).symm⟩

/-- What a run comes to, traced matching may come to. -/
theorem comes_of_runState {answer : σ → String → Int → Outcome (Option Pattern.Program) × σ} {s : σ}
    {t : Traced α} {a : α} (h : (t.runState answer s).1.1 = .ok a) : t.Comes a (t.runState answer s).1.2 := by
  induction t generalizing s with
  | done outcome => exact ⟨h, rfl⟩
  | ask source flags next ih =>
    rw [runState] at h ⊢
    revert h
    rcases answer s source flags with ⟨_ | p, s⟩
    · exact fun h => nomatch h
    · exact fun h => ⟨p, ih p h⟩
  | note event rest ih => exact ⟨_, ih h, rfl⟩

end Traced

/-! ## Parts that count -/

/-- Does the ledger name a part for a node or a test at or below an address? -/
def Ledger.Names (l : Ledger) (p a : Address) : Prop :=
  ∃ rest, l.part? (p ++ rest) = some a ∨ ∃ parts, l.testParts? (p ++ rest) = some parts ∧ a ∈ parts

namespace Ledger.Names

variable {l : Ledger} {p a : Address}

theorem of_part (h : l.part? p = some a) : l.Names p a := ⟨[], .inl (by rwa [List.append_nil])⟩

theorem of_testParts {parts : List Address} (h : l.testParts? p = some parts) (ha : a ∈ parts) : l.Names p a :=
  ⟨[], .inr ⟨parts, by rwa [List.append_nil], ha⟩⟩

theorem of_branch {i : Nat} (h : l.Names (p.branch i) a) : l.Names p a := by
  obtain ⟨rest, h⟩ := h
  rw [Address.branch, List.append_assoc] at h
  exact ⟨i :: rest, h⟩

end Ledger.Names

/-- Does every event count for a part that the ledger names there? -/
def Named (l : Ledger) (p : Address) (E : List Event) : Prop := ∀ e ∈ E, l.Names p e.address

/-- Does every event count for a part that the ledger names for a branch from one on? -/
def NamedFrom (l : Ledger) (p : Address) (i : Nat) (E : List Event) : Prop :=
  ∀ e ∈ E, ∃ j, i ≤ j ∧ l.Names (p.branch j) e.address

section

variable {l : Ledger} {p : Address} {i : Nat} {b : Bool} {E E₁ E₂ : List Event}

theorem Named.nil : Named l p [] := fun _ he => nomatch he

theorem NamedFrom.nil : NamedFrom l p i [] := fun _ he => nomatch he

theorem Named.append (h₁ : Named l p E₁) (h₂ : Named l p E₂) : Named l p (E₁ ++ E₂) :=
  fun e he => (List.mem_append.1 he).elim (h₁ e) (h₂ e)

theorem Named.of_branch (h : Named l (p.branch i) E) : Named l p E := fun e he => (h e he).of_branch

theorem NamedFrom.named (h : NamedFrom l p i E) : Named l p E := fun e he => by
  obtain ⟨j, -, hj⟩ := h e he
  exact hj.of_branch

theorem NamedFrom.append (h₁ : Named l (p.branch i) E₁) (h₂ : NamedFrom l p (i + 1) E₂) :
    NamedFrom l p i (E₁ ++ E₂) := by
  intro e he
  rcases List.mem_append.1 he with he | he
  · exact ⟨i, Nat.le_refl i, h₁ e he⟩
  · obtain ⟨j, hj, h⟩ := h₂ e he
    exact ⟨j, by omega, h⟩

theorem Named.of_recordAt {t : Traced Bool} (h : (Traced.recordAt (l.part? p) t).Comes b E)
    (ht : ∀ E, t.Comes b E → Named l p E) : Named l p E := by
  cases hpart : l.part? p with
  | none => exact ht E (Traced.comes_recordAt_none.1 (hpart ▸ h))
  | some a =>
    obtain ⟨E', h', rfl⟩ := Traced.comes_recordAt.1 (hpart ▸ h)
    refine (ht E' h').append fun e he => ?_
    cases List.mem_singleton.1 he
    exact .of_part hpart

theorem Named.of_anyItem {test : Value → Traced Bool} (h : ∀ v b E, (test v).Comes b E → Named l p E)
    (vs : List Value) (hvs : (Traced.anyItem test vs).Comes b E) : Named l p E := by
  induction vs generalizing E with
  | nil =>
    obtain ⟨-, rfl⟩ := Traced.comes_pure.1 hvs
    exact .nil
  | cons v vs ih =>
    obtain ⟨c, E₁, E₂, h₁, h₂, rfl⟩ := Traced.comes_bind.1 hvs
    refine (h v c E₁ h₁).append ?_
    cases c
    · exact ih h₂
    · obtain ⟨-, rfl⟩ := Traced.comes_pure.1 h₂
      exact .nil

end

section

variable {t : Terms} {table : Table} {l : Ledger}

mutual

theorem Node.traced_named (n : Node) {p : Address} {record : Value} {b : Bool} {E : List Event}
    (h : (n.traced t table l p record).Comes b E) : Named l p E := by
  match n with
  | .all items _ => exact .of_recordAt h fun _ h => (tracedAll_named items h).named
  | .any items => exact .of_recordAt h fun _ h => (tracedAny_named items h).named
  | .not item => exact .of_recordAt h fun _ h => (item.traced_named (Traced.comes_negation.1 h)).of_branch
  | .field _ condition => exact .of_recordAt h fun _ h => condition.traced_named h
  | .anyProperty _ | .predicate _ =>
    exact .of_recordAt h fun _ h => h.of_untraced ▸ .nil
termination_by structural n

theorem tracedAll_named (ns : List Node) {p : Address} {i : Nat} {record : Value} {b : Bool}
    {E : List Event} (h : (tracedAll t table l ns p i record).Comes b E) : NamedFrom l p i E := by
  match ns with
  | [] =>
    obtain ⟨-, rfl⟩ := Traced.comes_pure.1 h
    exact .nil
  | n :: ns =>
    obtain ⟨c, E₁, E₂, h₁, h₂, rfl⟩ := Traced.comes_bind.1 h
    refine .append (n.traced_named h₁) ?_
    cases c
    · obtain ⟨-, rfl⟩ := Traced.comes_pure.1 h₂
      exact .nil
    · exact tracedAll_named ns h₂
termination_by structural ns

theorem tracedAny_named (ns : List Node) {p : Address} {i : Nat} {record : Value} {b : Bool}
    {E : List Event} (h : (tracedAny t table l ns p i record).Comes b E) : NamedFrom l p i E := by
  match ns with
  | [] =>
    obtain ⟨-, rfl⟩ := Traced.comes_pure.1 h
    exact .nil
  | n :: ns =>
    obtain ⟨c, E₁, E₂, h₁, h₂, rfl⟩ := Traced.comes_bind.1 h
    refine .append (n.traced_named h₁) ?_
    cases c
    · exact tracedAny_named ns h₂
    · obtain ⟨-, rfl⟩ := Traced.comes_pure.1 h₂
      exact .nil
termination_by structural ns

theorem Condition.traced_named (c : Condition) {p : Address} {actual : Value} {b : Bool} {E : List Event}
    (h : (c.traced t table l p actual).Comes b E) : Named l p E := by
  match c with
  | .nested node =>
    exact .of_anyItem (fun _ _ _ h => (node.traced_named h).of_branch) _ h
  | .tests ts =>
    rw [Condition.traced] at h
    intro e he
    split at h
    · next parts hparts =>
      rcases tracedTests_named ts h e he with hpart | ⟨j, hj⟩
      · obtain ⟨a, ha, hae⟩ := List.mem_map.1 hpart
        exact .of_testParts hparts (Option.some.inj hae ▸ ha)
      · exact hj.of_branch
    · rcases tracedTests_named ts h e he with hpart | ⟨j, hj⟩
      · obtain ⟨_, _, hnone⟩ := List.mem_map.1 hpart
        cases hnone
      · exact hj.of_branch
  | .literal _ | .anyOf _ => exact Traced.Comes.of_untraced h ▸ .nil
termination_by structural c

/-- A test counts for its part; what it notes on its way counts below. -/
theorem tracedTests_named (ts : List Test) {parts : List (Option Address)} {p : Address} {i : Nat}
    {actual : Value} {b : Bool} {E : List Event}
    (h : (tracedTests t table l ts parts p i actual).Comes b E) :
    ∀ e ∈ E, some e.address ∈ parts ∨ ∃ j, l.Names (p.branch j) e.address := by
  match ts, parts with
  | [], _ | _ :: _, [] =>
    simp only [tracedTests] at h
    obtain ⟨-, rfl⟩ := Traced.comes_pure.1 h
    exact fun e he => nomatch he
  | test :: rest, part? :: parts =>
    rw [tracedTests] at h
    obtain ⟨c, E₁, E₂, h₁, h₂, rfl⟩ := Traced.comes_bind.1 h
    intro e he
    rcases List.mem_append.1 he with he | he
    · cases part? with
      | none => exact .inr ⟨i, test.traced_named (Traced.comes_recordAt_none.1 h₁) e he⟩
      | some a =>
        obtain ⟨E', h', rfl⟩ := Traced.comes_recordAt.1 h₁
        rcases List.mem_append.1 he with he | he
        · exact .inr ⟨i, test.traced_named h' e he⟩
        · cases List.mem_singleton.1 he
          exact .inl (List.mem_cons_self ..)
    · cases c
      · obtain ⟨-, rfl⟩ := Traced.comes_pure.1 h₂
        cases he
      · exact (tracedTests_named rest h₂ e he).imp (List.mem_cons_of_mem _) id
termination_by structural ts

theorem Test.traced_named (test : Test) {p : Address} {actual : Value} {b : Bool} {E : List Event}
    (h : (test.traced t table l p actual).Comes b E) : Named l p E := by
  match test with
  | .apply .. => exact Traced.Comes.of_untraced h ▸ .nil
  | .negate condition _ => exact condition.traced_named (Traced.comes_negation.1 h)
termination_by structural test

end

end

end Winnow
