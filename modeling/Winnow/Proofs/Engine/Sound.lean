import Winnow.Proofs.Engine.SetUp
import Winnow.Proofs.Expression.Depth
/-! # What an engine holds along a run

`Sound h t e`: the engine `e` has the table `t` and is set up as the one its history began with, every
kept tree is one that a fresh check has given at some table of the history, every kept program is what
its source compiles to, and every kept result is one that the history allows. Each request of an engine
keeps this; what a request comes to is said without the stores. -/

namespace Winnow.Engine
open Request

/-- What has happened to an engine: how it was made, which keys it used, what it was asked to check, which
tables it had, and which results it may keep. -/
structure History where
  base : Engine
  digested : List UInt8 → Prop
  requested : Value → Value → Prop
  seen : Table → Prop
  keepable : Fingerprint → ResultKey → List Value → Prop

namespace History

variable (h : History)

/-- The engine as it was made, with another table. -/
abbrev at' (t : Table) : Engine := h.base.withTable t

/-- Is the tree one that a fresh check gave for the key? -/
def Checked (key : String) (node : Node) : Prop :=
  ∃ t x depth bytes, h.seen t ∧ h.requested x depth ∧ (h.at' t).expressionBytes x depth = .ok bytes ∧
    h.digested bytes ∧ key = h.base.environment.digest bytes ∧ (h.at' t).check x depth = .ok node

/-- Is the table one of a history in which versions tell tables apart and digests tell keys apart? -/
structure Current (t : Table) : Prop where
  seen : h.seen t
  unique : ∀ u v, h.seen u → h.seen v → u.version = v.version → u = v
  free : ∀ a b, h.digested a → h.digested b →
    h.base.environment.digest a = h.base.environment.digest b → a = b

end History

/-- The engine has its table, is set up as at the start, and its stores hold what they may. -/
structure Sound (h : History) (t : Table) (e : Engine) : Prop where
  table : e.table = t
  sharesTable : e.sharesTable = h.base.sharesTable
  environment : e.environment = h.base.environment
  now : e.now = h.base.now
  defaults : e.defaults = h.base.defaults
  maxLength : e.patterns.maxLength = h.base.patterns.maxLength
  maxResults : e.results.maxResults = h.base.results.maxResults
  patterns : e.patterns.Sound
  expressions : e.expressions.Holds h.Checked
  results : e.results.Holds h.keepable

variable {h : History} {t : Table} {e : Engine} {x depth : Value} {o : Options} {node : Node} {d : Data}
  {q : Query} {records : List Value}

/-- A sound engine is set up as at the start, with the present table. -/
theorem sound_iff_setUp : Sound h t e ↔ SetUp (h.at' t) (·.Holds h.Checked)
    (fun r => r.maxResults = h.base.results.maxResults ∧ r.Holds h.keepable) e := by
  constructor
  · intro hs
    exact { hs with results := ⟨hs.maxResults, hs.results⟩ }
  · intro hs
    exact { hs with maxResults := hs.results.1, results := hs.results.2 }

namespace Sound

theorem check_eq (hs : Sound h t e) : e.check x depth = (h.at' t).check x depth :=
  (sound_iff_setUp.1 hs).check_eq x depth

theorem expressionBytes_eq (hs : Sound h t e) :
    e.expressionBytes x depth = (h.at' t).expressionBytes x depth := by
  simp only [expressionBytes, withTable, hs.table]

end Sound

/-! ## Validation -/

/-- What validation with a store comes to: it fails when there is no key, else it is a fresh check or the
tree of an expression with the same canonical form. -/
inductive Validated (h : History) (t : Table) (x depth : Value) : Outcome Node → Prop
  | keyless {f : Failure} (hkey : (h.at' t).expressionBytes x depth = .error f) :
    Validated h t x depth (.error f)
  | fresh {bytes : List UInt8} (hkey : (h.at' t).expressionBytes x depth = .ok bytes) :
    Validated h t x depth ((h.at' t).check x depth)
  | kept {bytes : List UInt8} {y : Value} {node : Node}
    (hkey : (h.at' t).expressionBytes x depth = .ok bytes) (hy : h.requested y depth)
    (hform : Canonical.ofValue y = Canonical.ofValue x) (hcheck : (h.at' t).check y depth = .ok node) :
    Validated h t x depth (.ok node)

/-- A limit with which a check succeeds is a whole number. -/
theorem check_depth (hc : e.check x depth = .ok node) : ∃ n : Int, depth = .int n ∧ 1 ≤ n ∧ n ≤ 10 := by
  obtain ⟨limit, hlimit, -⟩ := Outcome.bind_eq_ok.1 hc
  obtain ⟨rfl, least, most⟩ := readMaxDepth_eq_ok.1 hlimit
  exact ⟨limit, rfl, by omega, by omega⟩

theorem ofValue_depth {n : Int} (h1 : 1 ≤ n) (h10 : n ≤ 10) :
    Canonical.ofValue (.int n) = .int n := by
  obtain ⟨k, rfl⟩ := Int.eq_ofNat_of_zero_le (show 0 ≤ n by omega)
  have hk : k < 128 := by omega
  rw [Canonical.ofValue_int, if_pos]
  simp [MessagePack.encodeInt?, hk]

/-- A kept tree that is found stems from an expression with the same canonical form, checked at the
present table with the same limit. -/
theorem History.Checked.of_key (hcur : h.Current t) {bytes : List UInt8}
    (hkey : (h.at' t).expressionBytes x depth = .ok bytes) (hmsg : h.digested bytes)
    (hc : h.Checked (h.base.environment.digest bytes) node) : Validated h t x depth (.ok node) := by
  obtain ⟨u, y, depth', bytes', hu, hy, hbytes, hdigested, hdigest, hcheck⟩ := hc
  obtain rfl := hcur.free _ _ hmsg hdigested hdigest
  obtain ⟨hx, hd, hv⟩ := Canonical.ofValue_triple_inj (Canonical.ofValue_eq_of_bytes hbytes hkey)
  obtain rfl := hcur.unique u t hu hcur.seen (Int.ofNat_inj.1 (Canonical.ofValue_int_inj hv))
  obtain ⟨n, rfl, h1, h10⟩ := check_depth hcheck
  obtain rfl := Canonical.eq_int_of_ofValue (hd.symm.trans (ofValue_depth h1 h10))
  exact .kept hkey hy hx hcheck

/-- Validation keeps an engine sound, and comes to what it should. -/
theorem validate_ensures (hcur : h.Current t) (x maxDepth : Value)
    (hreq : h.requested x (h.base.depthOf maxDepth))
    (hmsg : ∀ bytes, (h.at' t).expressionBytes x (h.base.depthOf maxDepth) = .ok bytes →
      h.digested bytes) :
    Ensures (Sound h t) (validate x maxDepth) (Validated h t x (h.base.depthOf maxDepth)) := by
  intro e hs
  have hdepth : e.depthOf maxDepth = h.base.depthOf maxDepth := by rw [depthOf, depthOf, hs.defaults]
  have hkey : e.expressionKey x (h.base.depthOf maxDepth) =
      ((h.at' t).expressionBytes x (h.base.depthOf maxDepth)).map h.base.environment.digest := by
    rw [← hs.expressionBytes_eq, ← hs.environment]; rfl
  rw [validate_run, hdepth, hkey]
  generalize h.base.depthOf maxDepth = depth at *
  rcases hbytes : (h.at' t).expressionBytes x depth with f | bytes
  · exact ⟨hs, .keyless hbytes⟩
  simp only [Outcome.map_ok]
  have hsetUp := sound_iff_setUp.1 hs
  have hget := hs.expressions.get (k := h.base.environment.digest bytes) (Recent.respects_of_lawful _)
  have hfind := Recent.get_fst (s := e.expressions) (k := h.base.environment.digest bytes)
  rcases hg : e.expressions.get (h.base.environment.digest bytes) with ⟨_ | node, expressions⟩ <;>
    rw [hg] at hget hfind
  · simp only [hs.check_eq]
    have hfresh : Validated h t x depth ((h.at' t).check x depth) := .fresh hbytes
    rcases hc : (h.at' t).check x depth with f | node <;> rw [hc] at hfresh
    · exact ⟨sound_iff_setUp.2 ((hsetUp.with_expressions hget).rejecting f), hfresh⟩
    · refine ⟨sound_iff_setUp.2 (hsetUp.with_expressions (hget.put ?_)), hfresh⟩
      exact ⟨t, x, depth, bytes, hcur.seen, hreq, hbytes, hmsg bytes hbytes, rfl, hc⟩
  · have hc := hs.expressions.find? (Recent.respects_of_lawful _) hfind.symm
    exact ⟨sound_iff_setUp.2 (hsetUp.with_expressions hget), hc.of_key hcur hbytes (hmsg bytes hbytes)⟩

/-! ## Calls -/

/-- What the options and the tree of a query come to. -/
def Resolved (h : History) (t : Table) (q : Query) (r : Outcome (Options × Node)) : Prop :=
  match Options.resolve h.base.defaults q.given q.overrides with
  | .error f => r = .error f
  | .ok o => ∃ v, Validated h t q.expression (.int o.maxDepth) v ∧ r = v.map fun node => (o, node)

/-- Does the history list what a query has checked and the key of its expression? -/
structure History.Asks (h : History) (t : Table) (q : Query) : Prop where
  requested : ∀ o, Options.resolve h.base.defaults q.given q.overrides = .ok o →
    h.requested q.expression (.int o.maxDepth)
  digested : ∀ o bytes, Options.resolve h.base.defaults q.given q.overrides = .ok o →
    (h.at' t).expressionBytes q.expression (.int o.maxDepth) = .ok bytes → h.digested bytes

/-- Does the history list what a step has checked and the keys that it may use? -/
structure History.Lists (h : History) (t : Table) (s : Step) : Prop where
  requested : ∀ r, s.request? h.base = some r → h.requested r.1 r.2
  digested : ∀ bytes ∈ s.messages (h.at' t), h.digested bytes

theorem History.Lists.asks (hl : h.Lists t (.filter d q)) : h.Asks t q := by
  refine ⟨fun o ho => ?_, fun o bytes ho hb => hl.digested bytes ?_⟩
  · have hreq := hl.requested
    simp only [Step.request?, ho, Option.some.injEq, forall_eq'] at hreq
    exact hreq
  · have hdefaults : (h.at' t).defaults = h.base.defaults := rfl
    simp only [Step.messages, hdefaults, ho, List.mem_append]
    exact .inl (Outcome.mem_toList.2 hb)

theorem resolve_ensures (hcur : h.Current t) (ha : h.Asks t q) :
    Ensures (Sound h t) (resolve q) (Resolved h t q) := by
  have hoptions : Ensures (Sound h t) (options q.given q.overrides)
      (· = Options.resolve h.base.defaults q.given q.overrides) :=
    options_setUp.of_iff fun _ => sound_iff_setUp
  refine hoptions.bind (fun o ho => ?_) fun f hf => by unfold Resolved; rw [← hf]
  have hv := validate_ensures hcur q.expression (.int o.maxDepth)
    (ha.requested o ho.symm) fun bytes hb => ha.digested o bytes ho.symm hb
  refine hv.bind (fun node hnode => ensures_pure ?_) fun f hf => ?_
  · unfold Resolved; rw [← ho]; exact ⟨_, hnode, rfl⟩
  · unfold Resolved; rw [← ho]; exact ⟨_, hf, rfl⟩

/-- What options, tree and records of a call come to. -/
def Prepared (h : History) (t : Table) (d : Data) (q : Query)
    (r : Outcome (Options × Node × List Value)) : Prop :=
  ∃ v, Resolved h t q v ∧ r = v.bind fun (o, node) => d.records.map fun records => (o, node, records)

theorem prepare_ensures (hcur : h.Current t) (ha : h.Asks t q) :
    Ensures (Sound h t) (prepare d q) (Prepared h t d q) := by
  refine (resolve_ensures hcur ha).bind (fun on hon => ?_) fun f hf => ⟨_, hf, rfl⟩
  refine (lift_ensures d.records).bind (fun records hr => ensures_pure ⟨_, hon, ?_⟩)
    fun f hf => ⟨_, hon, ?_⟩
  · rcases on with ⟨o, node⟩; simp [Except.bind, ← hr]
  · rcases on with ⟨o, node⟩; simp [Except.bind, ← hf]

end Winnow.Engine
