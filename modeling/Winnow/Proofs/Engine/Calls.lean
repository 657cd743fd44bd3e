import Winnow.Proofs.Engine.Sound
/-! # Calls on a sound engine

Scans, look-ups and traced runs keep an engine sound. A scan comes to what it does without a store of
patterns; a cached call comes to what it computes, or to a result that the history allows for its key. -/

namespace Winnow.Engine
open Request

variable {h : History} {t : Table} {e : Engine} {x depth : Value} {o : Options} {node : Node} {d : Data}
  {q : Query} {records : List Value} {α : Type}

/-! ## Scans -/

theorem evaluate_ensures :
    Ensures (Sound h t) (evaluate o node records) (· = (h.at' t).answer o node records) :=
  evaluate_setUp.of_iff fun _ => sound_iff_setUp

/-! ## Look-ups -/

/-- Where the result of a call on an engine is kept. -/
def slotOf (e : Engine) (o : Options) (d : Data) (q : Query) : Outcome (Option (Fingerprint × ResultKey)) :=
  match if o.enableCache then d.fingerprint? else none with
  | none => .ok none
  | some fingerprint =>
    (ResultKey.make e.environment q.expression o e.table.version).map fun key => some (fingerprint, key)

theorem slot?_ensures : Ensures (Sound h t) (slot? o d q) (· = (h.at' t).slotOf o d q) := by
  intro e hs
  unfold slot? slotOf
  rcases if o.enableCache then d.fingerprint? else none with _ | fingerprint
  · exact ⟨hs, rfl⟩
  · simp only [engine_bind, withTable, hs.environment, hs.table]
    rcases ResultKey.make h.base.environment q.expression o t.version with f | key <;> exact ⟨hs, rfl⟩

variable {fingerprint : Fingerprint} {key : ResultKey}

theorem lookUp_ensures (hP : ∀ f, Recent.Respects (h.keepable f)) :
    Ensures (Sound h t) (lookUp fingerprint key)
      fun r => ∃ kept, r = .ok kept ∧ ∀ v, kept = some v → h.keepable fingerprint key v := by
  intro e hs
  obtain ⟨hget, hkept⟩ := hs.results.get (f := fingerprint) (k := key) hP
  exact ⟨{ hs with results := hget, maxResults := (ResultStore.maxResults_get ..).trans hs.maxResults },
    _, rfl, hkept⟩

/-- Has a collection room for results? -/
def History.Bounded (h : History) : Prop := ∃ n, readBound .cacheSize h.base.results.maxResults = .ok n

theorem keep_ensures {result : List Value} (hv : h.keepable fingerprint key result) :
    Ensures (Sound h t) (keep fingerprint key result) fun r => h.Bounded → r = .ok () := by
  intro e hs
  refine ⟨{ hs with results := hs.results.put hv, maxResults := ?_ }, fun ⟨n, hn⟩ => ?_⟩
  · exact (ResultStore.maxResults_put ..).trans hs.maxResults
  · exact ResultStore.put_ok (hs.maxResults ▸ hn)

theorem note_ensures (n : Notice) : Ensures (Sound h t) (note n) (· = .ok ()) :=
  (note_setUp n).of_iff fun _ => sound_iff_setUp

theorem measured_ensures {r : Request α} {Q : Outcome α → Prop} {operation : String}
    (hr : Ensures (Sound h t) r Q) : Ensures (Sound h t) (measured o operation r) Q :=
  (measured_setUp (hr.of_iff fun _ => sound_iff_setUp.symm)).of_iff fun _ => sound_iff_setUp

/-! ## Cached and traced calls -/

/-- What a cached call comes to: what it computes, or a result that may be kept for its key. -/
def Cached (h : History) (t : Table) (o : Options) (d : Data) (q : Query)
    (computed r : Outcome (List Value)) :
    Prop :=
  match (h.at' t).slotOf o d q with
  | .error f => r = .error f
  | .ok none => r = computed
  | .ok (some (fingerprint, key)) =>
    (h.Bounded → r = computed) ∨ ∃ v, r = .ok v ∧ h.keepable fingerprint key v

theorem cached_ensures {computed : Outcome (List Value)} {compute : Request (List Value)}
    (hc : Ensures (Sound h t) compute (· = computed)) (hP : ∀ f, Recent.Respects (h.keepable f))
    (hkeep : ∀ f k v, (h.at' t).slotOf o d q = .ok (some (f, k)) → computed = .ok v → h.keepable f k v) :
    Ensures (Sound h t) (cached o d q compute) (Cached h t o d q computed) := by
  unfold cached
  refine slot?_ensures.bind (fun slot hslot => ?_) fun f hf => by unfold Cached; rw [← hf]
  rcases slot with _ | ⟨fingerprint, key⟩
  · exact hc.mono fun r hr => by unfold Cached; rw [← hslot]; exact hr
  have hkey {r : Outcome (List Value)}
      (hr : (h.Bounded → r = computed) ∨ ∃ v, r = .ok v ∧ h.keepable fingerprint key v) :
      Cached h t o d q computed r := by
    unfold Cached; rw [← hslot]; exact hr
  refine (lookUp_ensures hP).bind (fun kept ⟨kept', hk, hv⟩ => ?_) fun f ⟨kept', hk, _⟩ => by cases hk
  obtain rfl := Except.ok.inj hk
  rcases kept with _ | result
  · refine (note_ensures _).bind (fun _ _ => ?_) fun f hf => by cases hf
    refine hc.bind (fun result hresult => ?_) fun f hf => hkey (.inl fun _ => hf)
    refine (keep_ensures (hkeep _ _ _ hslot.symm hresult.symm)).bind (fun _ _ => ?_) fun f hf => ?_
    · exact ensures_pure (hkey (.inl fun _ => hresult))
    · exact hkey (.inl fun hb => by cases hf hb)
  · refine (note_ensures _).bind (fun _ _ => ?_) fun f hf => by cases hf
    exact ensures_pure (hkey (.inr ⟨result, rfl, hv result rfl⟩))

theorem probe_keeps (hP : ∀ f, Recent.Respects (h.keepable f)) : Keeps (Sound h t) (probe o d q) := by
  refine slot?_ensures.keeps.bind fun slot => ?_
  rcases slot with _ | ⟨fingerprint, key⟩
  · exact ensures_pure trivial
  · exact (lookUp_ensures hP).keeps.bind fun _ => ensures_pure trivial

theorem scanTraced_keeps : Keeps (Sound h t) (scanTraced o node records) :=
  scanTraced_setUp.of_iff fun _ => sound_iff_setUp

theorem runTraced_keeps (hP : ∀ f, Recent.Respects (h.keepable f)) :
    Keeps (Sound h t) (runTraced d q o node records) := by
  refine (probe_keeps hP).bind fun hit => ?_
  exact Keeps.bind (measured_ensures scanTraced_keeps) fun _ => ensures_pure trivial

/-! ## Steps -/

/-- May a call keep what it computes? -/
def History.Keeps (h : History) (t : Table) (d : Data) (q : Query) : Prop :=
  ∀ o node records f key v, Options.resolve h.base.defaults q.given q.overrides = .ok o →
    Validated h t q.expression (.int o.maxDepth) (.ok node) → d.records = .ok records →
    (h.at' t).slotOf o d q = .ok (some (f, key)) → (h.at' t).answer o node records = .ok v →
    h.keepable f key v

theorem History.Keeps.of_forall (hall : ∀ f k v, h.keepable f k v) : h.Keeps t d q :=
  fun _ _ _ _ _ _ _ _ _ _ _ => hall ..

/-- A prepared call has resolved options, a validated tree and records. -/
theorem Prepared.of_ok (hp : Prepared h t d q (.ok (o, node, records))) :
    Options.resolve h.base.defaults q.given q.overrides = .ok o ∧
      Validated h t q.expression (.int o.maxDepth) (.ok node) ∧ d.records = .ok records := by
  obtain ⟨v, hv, hr⟩ := hp
  rcases v with f | ⟨o', node'⟩
  · cases hr
  obtain ⟨records', hrecords, heq⟩ := Outcome.map_eq_ok.1 (show Except.map _ d.records = _ from hr.symm)
  obtain ⟨rfl, rfl, rfl⟩ : o' = o ∧ node' = node ∧ records' = records := by simpa using heq
  unfold Resolved at hv
  split at hv
  · cases hv
  next o'' ho =>
  obtain ⟨v, hvalid, heq⟩ := hv
  obtain ⟨node'', rfl, heq⟩ := Outcome.map_eq_ok.1 heq.symm
  obtain ⟨rfl, rfl⟩ : o' = o'' ∧ node' = node'' := by simpa using heq
  exact ⟨ho, hvalid, hrecords⟩

/-- What a filter call comes to when it is not traced. -/
def Filtered (h : History) (t : Table) (d : Data) (q : Query) (r : Outcome (List Value)) : Prop :=
  ∃ p, Prepared h t d q p ∧
    match p with
    | .error f => r = .error f
    | .ok (o, node, records) => o.debug = true ∨ Cached h t o d q ((h.at' t).answer o node records) r

theorem filter_ensures (hcur : h.Current t) (ha : h.Asks t q) (hkeeps : h.Keeps t d q)
    (hP : ∀ f, Recent.Respects (h.keepable f)) :
    Ensures (Sound h t) (Engine.filter d q) (Filtered h t d q) := by
  refine (prepare_ensures hcur ha).bind (fun p hp => ?_) fun f hf => ⟨_, hf, rfl⟩
  rcases p with ⟨o, node, records⟩
  obtain ⟨ho, hnode, hrecords⟩ := hp.of_ok
  by_cases hdebug : o.debug = true
  · simp only [hdebug, if_true]
    refine Ensures.mono (Q := fun _ => True) ?_ fun r _ => ⟨_, hp, .inl hdebug⟩
    refine Keeps.bind (runTraced_keeps hP) fun run => ?_
    refine Keeps.bind (lift_ensures run.text).keeps fun text => ?_
    exact Keeps.bind (note_ensures _).keeps fun _ => ensures_pure trivial
  · simp only [hdebug]
    refine Ensures.mono (measured_ensures (cached_ensures evaluate_ensures hP ?_))
      fun r hr => ⟨_, hp, .inr hr⟩
    exact fun f key v hslot hv => hkeeps o node records f key v ho hnode hrecords hslot hv

theorem filterTraced_keeps (hcur : h.Current t) (ha : h.Asks t q)
    (hP : ∀ f, Recent.Respects (h.keepable f)) : Keeps (Sound h t) (Engine.filterTraced d q) :=
  Keeps.bind (prepare_ensures hcur ha).keeps fun _ => runTraced_keeps hP

theorem clear_keeps : Keeps (Sound h t) Engine.clear := by
  intro e hs
  refine ⟨?_, trivial⟩
  exact { hs with
    maxLength := hs.maxLength
    maxResults := hs.maxResults
    patterns := PatternStore.clear_sound
    expressions := Recent.Holds.clear
    results := ResultStore.Holds.clear }

end Winnow.Engine
