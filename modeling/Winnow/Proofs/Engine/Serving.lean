import Winnow.Engine.Cursor
import Winnow.Proofs.Engine.SetUp
/-! # Calls that are served one tree

Every way to ask for the records that match begins with validation, and keeps an engine set up as it was
when validation does. A call leaves the tree of its expression in the store as the most recent one, so all
calls for one expression and nesting limit are served the same tree, whatever else they ask for. -/

namespace Winnow

/-- A key that is read stays where it can be found. -/
theorem Recent.find?_get {κ ν : Type} [BEq κ] [LawfulBEq κ] (s : Recent κ ν) (k : κ) :
    (s.get k).2.find? k = s.find? k := by
  unfold get
  split
  · next v hv =>
    have hnone : (without s.entries k).lookup k = none := by
      rw [List.lookup_eq_none_iff]
      intro e he
      simpa using List.of_mem_filter he
    rw [hv, find?, List.lookup_append, hnone, Option.none_or]
    simp
  · rfl

namespace Engine
open Request

variable {base e : Engine} {J : Recent String Node → Prop} {o : Options} {node : Node} {d : Data} {q : Query}
  {records : List Value} {x depth : Value}

/-- Is the engine set up as another one, with trees as `J` has them? -/
abbrev Fits (base : Engine) (J : Recent String Node → Prop) : Engine → Prop := SetUp base J fun _ => True

/-! ## Validation -/

/-- Validation keeps what look-ups and writes of trees keep. -/
theorem validate_fits (hget : ∀ s k, J s → J (s.get k).2) (hput : ∀ s k node, J s → J (s.put k node)) :
    Keeps (Fits base J) (validate x depth) := by
  intro e hs
  refine ⟨?_, trivial⟩
  rw [validate_run]
  rcases e.expressionKey x (e.depthOf depth) with f | key
  · exact hs
  have hkept := hget e.expressions key hs.expressions
  simp only
  rcases hg : e.expressions.get key with ⟨_ | node, expressions⟩ <;> rw [hg] at hkept
  · rcases e.check x (e.depthOf depth) with f | node
    · exact (hs.with_expressions hkept).rejecting f
    · exact hs.with_expressions (hput _ _ _ hkept)
  · exact hs.with_expressions hkept

/-- Is a tree what the store has for an expression, or what a fresh check gives where it has none? -/
structure Serves (base : Engine) (x depth : Value) (node : Node) (s : Recent String Node) : Prop where
  room : 1 ≤ s.maxSize
  tree : ∃ key, base.expressionKey x depth = .ok key ∧
    (s.find? key = some node ∨ s.find? key = none ∧ base.check x depth = .ok node)

/-- Is the engine set up as another one, and does it serve a tree for an expression? -/
abbrev Serving (base : Engine) (x depth : Value) (node : Node) : Engine → Prop :=
  Fits base (Serves base x depth node)

theorem serves_of_validate (hroom : 1 ≤ e.expressions.maxSize) (hdepth : e.depthOf depth = depth)
    (hvalid : (validate x depth e).1 = .ok node) : Serves e x depth node e.expressions := by
  refine ⟨hroom, ?_⟩
  rw [validate_run, hdepth] at hvalid
  rcases hkey : e.expressionKey x depth with f | key
  · rw [hkey] at hvalid; cases hvalid
  refine ⟨key, rfl, ?_⟩
  have hfind := Recent.get_fst (s := e.expressions) (k := key)
  rw [hkey] at hvalid
  simp only at hvalid
  rcases hget : e.expressions.get key with ⟨_ | kept, expressions⟩ <;> rw [hget] at hvalid hfind
  · right
    rcases hcheck : e.check x depth with f | fresh <;> rw [hcheck] at hvalid
    · cases hvalid
    · exact ⟨hfind.symm, hvalid⟩
  · left
    obtain rfl := Except.ok.inj hvalid
    exact hfind.symm

/-- The tree is handed out, and is what the store has from then on. -/
theorem validate_serves (hdepth : base.depthOf depth = depth) :
    Ensures (Serving base x depth node) (validate x depth) (· = .ok node) := by
  intro e hs
  obtain ⟨hroom, key, hkey, htree⟩ := hs.expressions
  have hdepth : e.depthOf depth = depth := by rwa [depthOf, hs.defaults]
  rw [validate_run, hdepth, hs.expressionKey_eq, hkey]
  have hfind := Recent.get_fst (s := e.expressions) (k := key)
  have hsame := Recent.find?_get e.expressions key
  have hsize := Recent.maxSize_get (s := e.expressions) (k := key)
  simp only
  rcases hg : e.expressions.get key with ⟨_ | kept, expressions⟩ <;> rw [hg] at hfind hsame hsize
  · rcases htree with htree | ⟨-, hcheck⟩
    · rw [htree] at hfind; cases hfind
    rw [hs.check_eq, hcheck]
    -- the fresh tree is written, and found from then on
    have hput : (expressions.put key node).find? key = some node := Recent.find?_put (hsize ▸ hroom)
    exact ⟨hs.with_expressions ⟨hsize ▸ hroom, key, hkey, .inl hput⟩, rfl⟩
  · rcases htree with htree | ⟨htree, -⟩
    · rw [htree] at hfind
      obtain rfl := Option.some.inj hfind
      exact ⟨hs.with_expressions ⟨hsize ▸ hroom, key, hkey, .inl (hsame.trans htree)⟩, rfl⟩
    · rw [htree] at hfind; cases hfind

/-! ## Results that are looked up -/

theorem slot?_fits : Keeps (Fits base J) (slot? o d q) := by
  intro e hs
  unfold slot?
  rcases if o.enableCache then d.fingerprint? else none with _ | fingerprint
  · exact ⟨hs, trivial⟩
  · simp only [engine_bind]
    rcases ResultKey.make e.environment q.expression o e.table.version with f | key <;> exact ⟨hs, trivial⟩

variable {fingerprint : Fingerprint} {key : ResultKey}

theorem lookUp_fits : Keeps (Fits base J) (lookUp fingerprint key) :=
  fun _ hs => ⟨{ hs with results := trivial }, trivial⟩

theorem keep_fits (result : List Value) : Keeps (Fits base J) (keep fingerprint key result) :=
  fun _ hs => ⟨{ hs with results := trivial }, trivial⟩

theorem cached_fits {compute : Request (List Value)} (hc : Keeps (Fits base J) compute) :
    Keeps (Fits base J) (cached o d q compute) := by
  refine slot?_fits.bind fun slot => ?_
  rcases slot with _ | ⟨fingerprint, key⟩
  · exact hc
  refine lookUp_fits.bind fun kept => ?_
  rcases kept with _ | result
  · refine (note_setUp _).keeps.bind fun _ => hc.bind fun result => ?_
    exact (keep_fits result).bind fun _ => ensures_pure trivial
  · exact (note_setUp _).keeps.bind fun _ => ensures_pure trivial

theorem cached_of_uncached (ho : o.enableCache = false) (compute : Request (List Value)) :
    cached o d q compute = compute := by
  funext e
  simp only [cached, slot?, ho, Bool.false_eq_true, if_false]
  rfl

theorem runTraced_fits : Keeps (Fits base J) (runTraced d q o node records) := by
  have hprobe : Keeps (Fits base J) (probe o d q) := by
    refine slot?_fits.bind fun slot => ?_
    rcases slot with _ | ⟨fingerprint, key⟩
    · exact ensures_pure trivial
    · exact lookUp_fits.bind fun _ => ensures_pure trivial
  refine hprobe.bind fun hit => ?_
  exact Keeps.bind (measured_setUp scanTraced_setUp) fun _ => ensures_pure trivial

end Engine
end Winnow
