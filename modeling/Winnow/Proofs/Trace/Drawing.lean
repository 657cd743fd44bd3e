import Winnow.Proofs.Transport.JsonRoundTrip
import Winnow.Trace.Match
import Winnow.Trace.Text
/-! # Which traces can be drawn

A drawing shows the operands of the tree that was traced. Mappings are shown as JSON, and JSON does not have
all mappings, so some operands cannot be shown; everything else in a drawing can. Counts play no part in
this. -/

namespace Winnow

mutual

/-- Can the value be shown? Of its mappings JSON has what is left when all but its own kinds is text. -/
def Value.IsShown : Value → Prop
  | .list items | .tuple items => AllShown items
  | .object entries => (Value.object entries).shown.Throughout Json.Has
  | _ => True
termination_by structural v => v

def AllShown : List Value → Prop
  | [] => True
  | v :: vs => v.IsShown ∧ AllShown vs
termination_by structural vs => vs

end

theorem allShown_iff {vs : List Value} : AllShown vs ↔ ∀ v ∈ vs, v.IsShown := by
  induction vs with
  | nil => exact iff_of_true trivial (List.forall_mem_nil _)
  | cons v vs ih => rw [AllShown, List.forall_mem_cons, ih]

mutual

theorem Value.exists_brief_iff (v : Value) : (∃ s, v.brief = .ok s) ↔ v.IsShown := by
  match v with
  | .list items | .tuple items =>
    rw [Value.brief, Outcome.bind_pure_eq, Outcome.exists_map_eq_ok]
    exact exists_briefItems_iff items
  | .object entries =>
    rw [Value.IsShown, ← Json.exists_write_iff_has, Value.brief, Json.encode]
    cases Json.write {} 0 (Value.object entries).shown <;> simp
  | .null | .bool _ | .int _ | .float _ | .text _ | .bytes _ | .date _ | .moment _ | .span _ | .set _ | .record _
  | .pattern _ | .callable _ | .missing | .extension .. | .other .. => exact iff_of_true ⟨_, rfl⟩ trivial
termination_by structural v

theorem exists_briefItems_iff (vs : List Value) : (∃ ss, briefItems vs = .ok ss) ↔ AllShown vs := by
  match vs with
  | [] => exact iff_of_true ⟨_, rfl⟩ trivial
  | v :: vs =>
    rw [briefItems, AllShown, ← v.exists_brief_iff, ← exists_briefItems_iff vs]
    refine Outcome.exists_bind_eq_ok fun s => ?_
    rw [Outcome.bind_pure_eq, Outcome.exists_map_eq_ok]
termination_by structural vs

end

/-! ## Entries -/

namespace TraceEntry

/-- The entry before any record was counted. -/
def uncounted (e : TraceEntry) : TraceEntry := { e with evaluated := 0, matched := 0, elapsed := none }

/-- Is the operand in the entry's label? -/
def ShowsOperand (e : TraceEntry) : Prop :=
  e.kind = .operator ∨ (e.kind = .field ∧ e.operator = some Builtin.isIn.key) ∨
    (e.kind = .primitive ∧ e.operator ≠ some "function")

/-- Is the operand in the label, unless it can be shown anyway? -/
def Plain (e : TraceEntry) : Prop := e.ShowsOperand ∨ e.operand.IsShown

variable {e e' : TraceEntry}

theorem operand_congr (h : e'.uncounted = e.uncounted) : e'.operand = e.operand :=
  congrArg (·.operand) h

theorem plain_congr (h : e'.uncounted = e.uncounted) : e'.Plain ↔ e.Plain := by
  have hkind : e'.kind = e.kind := congrArg (·.kind) h
  have hoperator : e'.operator = e.operator := congrArg (·.operator) h
  unfold Plain ShowsOperand
  rw [hkind, hoperator, operand_congr h]

end TraceEntry

namespace Drawing

variable {d : Drawing} {e : TraceEntry}

theorem exists_label_iff : (∃ s, d.label e = .ok s) ↔ (e.ShowsOperand → e.operand.IsShown) := by
  have hbrief (f : String → String) :
      (∃ s, (e.operand.brief >>= fun t => pure (f t) : Outcome String) = .ok s) ↔ e.operand.IsShown := by
    rw [Outcome.bind_pure_eq, Outcome.exists_map_eq_ok, e.operand.exists_brief_iff]
  unfold label TraceEntry.ShowsOperand
  split
  · next h => simp [h]
  · next h => exact (hbrief _).trans (by simp [h])
  · next h =>
    dsimp only
    split
    · next hin => exact (hbrief _).trans (by simp [h, hin])
    · next hin => simp [h, hin]
  · next h =>
    split
    · next hfunction => simp [h, hfunction]
    · next hfunction => exact (hbrief _).trans (by simp [h, hfunction])

theorem exists_entryLines_iff (he : e.Plain) (indent : String) (isLast : Bool) :
    (∃ ls, d.entryLines indent isLast e = .ok ls) ↔ e.operand.IsShown := by
  have hlines (h : e.operand.IsShown) (line below : String) :
      ∃ ls, (if d.verbose && !e.operand.isNull && e.kind != .primitive then
        do return [line, below ++ "│ Value: " ++ (← e.operand.brief)] else return [line] : Outcome _) = .ok ls := by
    obtain ⟨s, hs⟩ := e.operand.exists_brief_iff.2 h
    rw [hs]
    split <;> exact ⟨_, rfl⟩
  unfold entryLines
  constructor
  · rintro ⟨ls, hls⟩
    obtain ⟨label, hlabel, -⟩ := Outcome.bind_eq_ok.1 hls
    exact he.elim (exists_label_iff.1 ⟨label, hlabel⟩) id
  · intro h
    obtain ⟨label, hlabel⟩ := exists_label_iff.2 fun _ => h
    rw [hlabel]
    exact hlines h _ _

/-! ## Trees -/

mutual

theorem exists_traceLines_iff (t : Trace) (ht : ∀ e ∈ t.walk, e.Plain) (indent : String) (isLast : Bool) :
    (∃ ls, d.traceLines indent isLast t = .ok ls) ↔ ∀ e ∈ t.walk, e.operand.IsShown := by
  match t with
  | .node e ts =>
    rw [Trace.walk, List.forall_mem_cons] at ht ⊢
    rw [traceLines, ← exists_entryLines_iff ht.1 indent isLast]
    refine Outcome.exists_bind_eq_ok fun lines => ?_
    rw [Outcome.bind_pure_eq, Outcome.exists_map_eq_ok]
    exact exists_childLines_iff ts ht.2 _
termination_by structural t

theorem exists_childLines_iff (ts : List Trace) (hts : ∀ e ∈ Trace.walk.walkAll ts, e.Plain) (indent : String) :
    (∃ ls, d.childLines indent ts = .ok ls) ↔ ∀ e ∈ Trace.walk.walkAll ts, e.operand.IsShown := by
  match ts with
  | [] => exact iff_of_true ⟨_, rfl⟩ (List.forall_mem_nil _)
  | t :: ts =>
    rw [Trace.walk.walkAll, List.forall_mem_append] at hts ⊢
    rw [childLines, ← exists_traceLines_iff t hts.1 indent ts.isEmpty]
    refine Outcome.exists_bind_eq_ok fun lines => ?_
    rw [Outcome.bind_pure_eq, Outcome.exists_map_eq_ok]
    exact exists_childLines_iff ts hts.2 _
termination_by structural ts

end

theorem exists_lines_iff {t : Trace} (ht : ∀ e ∈ t.walk, e.Plain) :
    (∃ ls, d.lines t = .ok ls) ↔ ∀ e ∈ t.walk, e.operand.IsShown := by
  rw [lines, Outcome.bind_pure_eq, Outcome.exists_map_eq_ok]
  exact exists_traceLines_iff t ht _ _

end Drawing

/-! ## Traces of nodes -/

mutual

/-- The operands of a tree that its trace holds. -/
def Node.operands : Node → List Value
  | .all items _ | .any items => operandsOf items
  | .not item => item.operands
  | .field _ condition => condition.operands
  | .anyProperty l => [l.raw]
  | .predicate _ => []
termination_by structural n => n

def operandsOf : List Node → List Value
  | [] => []
  | n :: ns => n.operands ++ operandsOf ns
termination_by structural ns => ns

def Condition.operands : Condition → List Value
  | .literal l => [l.raw]
  | .anyOf members => members.map (·.raw)
  | .nested n => n.operands
  | .tests ts => ts.map (·.raw)
termination_by structural c => c

end

namespace Trace

variable {table : Table}

/-- Do labels show operands as they should, and are these shown exactly when those of a list are? -/
structure Draws (vs : List Value) (es : List TraceEntry) : Prop where
  plain : ∀ e ∈ es, e.Plain
  shown : (∀ e ∈ es, e.operand.IsShown) ↔ ∀ v ∈ vs, v.IsShown

namespace Draws

theorem nil : Draws [] [] := ⟨List.forall_mem_nil _, iff_of_true (List.forall_mem_nil _) (List.forall_mem_nil _)⟩

theorem append {vs ws : List Value} {es fs : List TraceEntry} (h : Draws vs es) (h' : Draws ws fs) :
    Draws (vs ++ ws) (es ++ fs) where
  plain := List.forall_mem_append.2 ⟨h.plain, h'.plain⟩
  shown := by rw [List.forall_mem_append, List.forall_mem_append, h.shown, h'.shown]

/-- An entry without an operand is always drawn. -/
theorem cons {vs : List Value} {es : List TraceEntry} (h : Draws vs es) {e : TraceEntry} (he : e.operand.IsShown) :
    Draws vs (e :: es) where
  plain := List.forall_mem_cons.2 ⟨.inr he, h.plain⟩
  shown := by rw [List.forall_mem_cons, and_iff_right he, h.shown]

theorem leaf {vs : List Value} {e : TraceEntry} (he : e.Plain) (h : e.operand.IsShown ↔ ∀ v ∈ vs, v.IsShown) :
    Draws vs (Trace.leaf e).walk where
  plain := List.forall_mem_singleton.2 he
  shown := List.forall_mem_singleton.trans h

end Draws

theorem tests_draw (path : String) (ts : List Test) : Draws (ts.map (·.raw))
    (walk.walkAll (ts.map fun test => leaf (operatorEntry table path test.key test.raw))) := by
  induction ts with
  | nil => exact .nil
  | cons test rest ih =>
    have hleaf : Draws [test.raw] (leaf (operatorEntry table path test.key test.raw)).walk :=
      .leaf (.inl (.inl rfl)) List.forall_mem_singleton.symm
    exact hleaf.append ih

mutual

theorem ofNode_draws (n : Node) : Draws n.operands (ofNode table n).walk := by
  match n with
  | .all items _ | .any items => exact (ofNodes_draws items).cons trivial
  | .not item =>
    have h := (ofNode_draws item).append .nil
    rw [List.append_nil] at h
    exact h.cons trivial
  | .field path condition => exact ofCondition_draws path condition
  | .anyProperty l => exact .leaf (.inl (.inr (.inr ⟨rfl, by simp⟩))) List.forall_mem_singleton.symm
  | .predicate c => exact .leaf (.inr trivial) (iff_of_true trivial (List.forall_mem_nil _))
termination_by structural n

theorem ofNodes_draws (ns : List Node) : Draws (operandsOf ns) (walk.walkAll (ofNodes table ns)) := by
  match ns with
  | [] => exact .nil
  | n :: ns => exact (ofNode_draws n).append (ofNodes_draws ns)
termination_by structural ns

theorem ofCondition_draws (path : String) (c : Condition) : Draws c.operands (ofCondition table path c).walk := by
  match c with
  | .literal l => exact .leaf (.inl (.inl rfl)) List.forall_mem_singleton.symm
  | .anyOf members => exact .leaf (.inl (.inr (.inl ⟨rfl, rfl⟩))) allShown_iff
  | .nested n =>
    have h := (ofNode_draws n).append .nil
    rw [List.append_nil] at h
    exact h.cons trivial
  | .tests [] => exact Draws.nil.cons trivial
  | .tests [test] => exact .leaf (.inl (.inl rfl)) List.forall_mem_singleton.symm
  | .tests (test :: test' :: rest) => exact (tests_draw path (test :: test' :: rest)).cons trivial
termination_by structural c

end

/-! ## Traces with counts -/

theorem uncounted_fillEntry (timed : Bool) (E : List Event) (e : TraceEntry) :
    (fillEntry timed E e).uncounted = e.uncounted := by
  unfold fillEntry
  induction E generalizing e with
  | nil => rfl
  | cons event E ih => exact ih (e.record event.passed _)

mutual

/-- Events change nothing in a trace but its counts. -/
theorem uncounted_fill {timed : Bool} {E : List Event} (t : Trace) (p : Address) :
    (t.fill timed E p).walk.map TraceEntry.uncounted = t.walk.map TraceEntry.uncounted := by
  match t with
  | .node e ts =>
    rw [fill, walk, walk, List.map_cons, List.map_cons, uncounted_fillEntry, uncounted_fillAll ts]
termination_by structural t

theorem uncounted_fillAll {timed : Bool} {E : List Event} (ts : List Trace) (p : Address) (i : Nat) :
    (walk.walkAll (fillAll timed E p i ts)).map TraceEntry.uncounted =
      (walk.walkAll ts).map TraceEntry.uncounted := by
  match ts with
  | [] => rfl
  | t :: ts =>
    rw [fillAll, walk.walkAll, walk.walkAll, List.map_append, List.map_append, uncounted_fill t,
      uncounted_fillAll ts]
termination_by structural ts

end

/-- Whether entries can be drawn does not depend on their counts. -/
theorem Draws.of_uncounted {vs : List Value} {es es' : List TraceEntry} (h : Draws vs es)
    (hes : es'.map TraceEntry.uncounted = es.map TraceEntry.uncounted) : Draws vs es' := by
  have hsame : List.Forall₂ (fun e' e => e'.uncounted = e.uncounted) es' es :=
    forall₂_of_map_eq hes fun _ _ _ _ h => h
  have hplain : (∀ e ∈ es', e.Plain) ↔ ∀ e ∈ es, e.Plain :=
    (Paired.of_forall₂ hsame).forall_iff fun e' _ e _ h => TraceEntry.plain_congr h
  have hshown : (∀ e ∈ es', e.operand.IsShown) ↔ ∀ e ∈ es, e.operand.IsShown :=
    (Paired.of_forall₂ hsame).forall_iff fun e' _ e _ h => by rw [TraceEntry.operand_congr h]
  exact ⟨hplain.2 h.plain, hshown.trans h.shown⟩

end Trace

/-- Can all operands be shown that the trace of a tree holds? -/
def Node.IsDrawable (n : Node) : Prop := ∀ v ∈ n.operands, v.IsShown

theorem Trace.Draws.exists_lines_iff {n : Node} {t : Trace} (h : Draws n.operands t.walk) (d : Drawing) :
    (∃ ls, d.lines t = .ok ls) ↔ n.IsDrawable :=
  (Drawing.exists_lines_iff h.plain).trans h.shown

end Winnow
