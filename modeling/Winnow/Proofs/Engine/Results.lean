import Winnow.Proofs.Engine.Validation
import Winnow.Proofs.Matching.Tables
/-! # Kept results are as good as fresh ones

Beside a call with stores stands the same call without any, `outcomeOf`. If no two expressions of a run
share a canonical form, every result that an engine keeps is what the call that finds it would come to by
itself: its key holds the expression, the options that matter and the version of the table, its
collection the data. -/

namespace Winnow

/-- Does a call ask for the same as another, but for no kept result? -/
structure Query.Uncached (defaults : Options) (q q' : Query) : Prop where
  expression : q'.expression = q.expression
  options : Options.resolve defaults q'.given q'.overrides =
    (Options.resolve defaults q.given q.overrides).map fun o => { o with enableCache := false }

/-- Is the data the collection with its identity, if it has one? -/
def Data.IsFrom (content : Nat → Value) : Data → Prop
  | .value identity v => v = content identity
  | .stream .. => True

namespace Engine

variable {h : History} {t u : Table} {e e' : Engine} {x depth : Value} {o o' : Options} {node : Node}
  {d : Data} {q : Query} {records : List Value} {ss : List Step} {content : Nat → Value}

/-! ## Without stores -/

/-- The result of an expression on data without stores; there is none when the expression has no key. -/
def direct (e : Engine) (x : Value) (o : Options) (d : Data) : Outcome (List Value) := do
  let _ ← e.expressionBytes x (.int o.maxDepth)
  let node ← e.check x (.int o.maxDepth)
  let records ← d.records
  e.answer o node records

/-- The outcome of a call without stores. -/
def outcomeOf (e : Engine) (d : Data) (q : Query) : Outcome (List Value) := do
  let o ← Options.resolve e.defaults q.given q.overrides
  e.direct q.expression o d

theorem answer_alike (ho : o.Alike o') : e.answer o node records = e.answer o' node records := by
  unfold answer found passes Options.terms
  rw [ho.caseSensitive, ho.orderBy, ho.limit, ho.customComparator]

theorem direct_alike (ho : o.Alike o') : e.direct x o d = e.direct x o' d := by
  unfold direct
  rw [ho.maxDepth]
  simp only [answer_alike ho]

/-- Do two engines agree on all that a call without stores looks at? -/
structure Twin (e e' : Engine) : Prop where
  operators : e.table.operators = e'.table.operators
  nonempty : e'.table.operators ≠ []
  environment : e.environment = e'.environment
  now : e.now = e'.now
  defaults : e.defaults = e'.defaults
  maxLength : e.patterns.maxLength = e'.patterns.maxLength

theorem Twin.check_eq (hw : Twin e e') : e.check x depth = e'.check x depth := by
  rw [check, check, checkingTable_of_nonempty (hw.operators ▸ hw.nonempty),
    checkingTable_of_nonempty hw.nonempty,
    hw.environment, validate_congr hw.operators]

theorem Twin.answer_eq (hw : Twin e e') : e.answer o node records = e'.answer o node records := by
  unfold answer found passes
  simp only [hw.now, hw.environment, hw.maxLength, node.matches_congr _ hw.operators]

/-- Can the table's version stand in a key? -/
abbrev VersionFits (t : Table) : Prop := t.version < 2 ^ 64

theorem expressionBytes_ok (hv : VersionFits e.table) (x depth : Value) :
    (∃ bytes, e.expressionBytes x depth = .ok bytes) ↔ Canonical.Fits x ∧ Canonical.Fits depth := by
  have hversion : Canonical.Fits (.int e.table.version) := Canonical.fitsIn_nat hv
  rw [expressionBytes, Canonical.bytes_triple]
  exact ⟨fun hx => ⟨hx.1, hx.2.1⟩, fun hx => ⟨hx.1, hx.2, hversion⟩⟩

/-- Whether an expression has a key does not depend on the table. -/
theorem Twin.direct_eq (hw : Twin e e') (hv : VersionFits e.table) (hv' : VersionFits e'.table) :
    e.direct x o d = e'.direct x o d := by
  unfold direct
  have hiff := (expressionBytes_ok hv x (.int o.maxDepth)).trans (expressionBytes_ok hv' x _).symm
  rcases hb : e.expressionBytes x (.int o.maxDepth) with f | bytes
  · rcases hb' : e'.expressionBytes x (.int o.maxDepth) with f' | bytes'
    · rw [Canonical.bytes_error hb, Canonical.bytes_error hb']; rfl
    · obtain ⟨bytes, hbytes⟩ := hiff.2 ⟨_, hb'⟩
      rw [hb] at hbytes
      cases hbytes
  · obtain ⟨bytes', hb'⟩ := hiff.1 ⟨_, hb⟩
    rw [hb']
    simp only [Outcome.ok_bind, hw.check_eq, hw.answer_eq]

/-! ## Calls -/

/-- Do the canonical forms tell the expressions of a history apart? -/
def History.FormsApart (h : History) : Prop :=
  ∀ x y depth depth', h.requested x depth → h.requested y depth' → Canonical.ofValue x = Canonical.ofValue y →
    x = y

/-- When forms tell expressions apart, validation comes to a fresh check. -/
theorem Validated.eq_check (hforms : h.FormsApart) (hx : h.requested x depth) {r : Outcome Node}
    (hv : Validated h t x depth r) :
    r = (do let _ ← (h.at' t).expressionBytes x depth; (h.at' t).check x depth) := by
  cases hv with
  | keyless hkey => rw [hkey]; rfl
  | fresh hkey => rw [hkey]; rfl
  | kept hkey hy hform hcheck =>
    obtain rfl := hforms _ _ _ _ hy hx hform
    rw [hkey, Outcome.ok_bind, hcheck]

/-- A call that is not traced comes to what it does without stores, if what it finds kept does. -/
theorem Filtered.eq_outcomeOf (hforms : h.FormsApart) (ha : h.Asks t q)
    (hdebug : ∀ o, Options.resolve h.base.defaults q.given q.overrides = .ok o → o.debug = false)
    (hcached : ∀ o node records r, Options.resolve h.base.defaults q.given q.overrides = .ok o →
      (h.at' t).direct q.expression o d = (h.at' t).answer o node records →
      (∃ bytes, (h.at' t).expressionBytes q.expression (.int o.maxDepth) = .ok bytes) →
      Cached h t o d q ((h.at' t).answer o node records) r → r = (h.at' t).answer o node records)
    {r : Outcome (List Value)} (hr : Filtered h t d q r) : r = (h.at' t).outcomeOf d q := by
  obtain ⟨p, ⟨v, hv, rfl⟩, hr⟩ := hr
  have hdefaults : (h.at' t).defaults = h.base.defaults := rfl
  unfold outcomeOf
  rw [hdefaults]
  unfold Resolved at hv
  rcases ho : Options.resolve h.base.defaults q.given q.overrides with f | o <;> rw [ho] at hv
  · obtain rfl := hv
    exact hr
  obtain ⟨v, hvalid, rfl⟩ := hv
  have hvalid := hvalid.eq_check hforms (ha.requested o ho)
  have hdirect : (h.at' t).direct q.expression o d =
      v.bind fun node => d.records.bind fun records => (h.at' t).answer o node records := by
    rw [hvalid, direct]
    rcases (h.at' t).expressionBytes q.expression (.int o.maxDepth) with _ | _ <;> rfl
  rw [Outcome.ok_bind, hdirect]
  rcases v with f | node
  · exact hr
  have hbytes : ∃ bytes, (h.at' t).expressionBytes q.expression (.int o.maxDepth) = .ok bytes :=
    (Outcome.bind_eq_ok.1 hvalid.symm).imp fun _ h => h.1
  rcases hrecords : d.records with f | records <;> rw [hrecords] at hr hdirect
  · exact hr
  · rcases hr with hr | hr
    · rw [hdebug o ho] at hr
      cases hr
    · exact hcached o node records r ho hdirect hbytes hr

/-! ## What is kept -/

variable {f : Fingerprint} {key : ResultKey} {v : List Value} {bytes : List UInt8}

theorem eq_of_fingerprint? (hd : d.IsFrom content) (hf : d.fingerprint? = some f) :
    d = .value f.identity (content f.identity) := by
  rcases d with ⟨identity, value⟩ | ⟨kind, records⟩
  · cases value with
    | list items | tuple items =>
      obtain rfl := Option.some.inj hf
      exact congrArg _ hd
    | _ => cases hf
  · cases hf

theorem slotOf_eq_some (hslot : e.slotOf o d q = .ok (some (f, key))) :
    d.fingerprint? = some f ∧
      ∃ bytes, e.resultBytes q.expression o = .ok bytes ∧ key.digest = e.environment.digest bytes := by
  unfold slotOf at hslot
  split at hslot
  · cases hslot
  next fingerprint hfingerprint =>
  obtain ⟨key', hkey, hpair⟩ := Outcome.map_eq_ok.1 hslot
  obtain ⟨rfl, rfl⟩ : fingerprint = f ∧ key' = key := by simpa using hpair
  obtain ⟨bytes, hbytes, hkey⟩ := Outcome.bind_eq_ok.1 hkey
  refine ⟨?_, bytes, hbytes, by rw [← Except.ok.inj hkey]⟩
  split at hfingerprint
  · exact hfingerprint
  · cases hfingerprint

theorem slotOf_uncached (ho : o.enableCache = false) : e.slotOf o d q = .ok none := by
  simp [slotOf, ho]

theorem slotOf_ok (hkey : e.resultBytes q.expression o = .ok bytes) : ∃ slot, e.slotOf o d q = .ok slot := by
  unfold slotOf
  split
  · exact ⟨_, rfl⟩
  · rw [ResultKey.make, show Canonical.bytes _ = .ok bytes from hkey]
    exact ⟨_, rfl⟩

/-- Is the result what an expression of a run comes to, at a table of the run and on the collection as it
is, under the key that this has there? -/
def Kept (e : Engine) (ss : List Step) (content : Nat → Value) (f : Fingerprint) (key : ResultKey)
    (v : List Value) : Prop :=
  ∃ u x o bytes, u ∈ tables ss e.table ∧ (x, .int o.maxDepth) ∈ e.requests ss ∧
    (e.withTable u).resultBytes x o = .ok bytes ∧ bytes ∈ e.messages ss ∧
    key.digest = e.environment.digest bytes ∧
    (e.withTable u).direct x o (.value f.identity (content f.identity)) = .ok v

theorem Kept.respects : Recent.Respects (e.Kept ss content f) := by
  intro key key' v heq hkept
  have hdigest : key.digest = key'.digest := by
    have hboth : (key.digest == key'.digest && key.callables.all (key'.callables.contains ·) &&
      key'.callables.all (key.callables.contains ·)) = true := heq
    simp only [Bool.and_eq_true, beq_iff_eq] at hboth
    exact hboth.1.1
  unfold Kept
  rw [hdigest]
  exact hkept

/-- A kept result is what the call that finds it comes to. -/
theorem Kept.direct_eq (hcur : (historyOf e ss (e.Kept ss content)).Current t)
    (hforms : (historyOf e ss (e.Kept ss content)).FormsApart) (hx : (x, .int o.maxDepth) ∈ e.requests ss)
    (hbytes : (e.withTable t).resultBytes x o = .ok bytes) (hmessage : bytes ∈ e.messages ss)
    (hkey : key.digest = e.environment.digest bytes) (hkept : e.Kept ss content f key v) :
    (e.withTable t).direct x o (.value f.identity (content f.identity)) = .ok v := by
  obtain ⟨u, y, o', bytes', hu, hy, hbytes', hmessage', hkey', hdirect⟩ := hkept
  obtain rfl := hcur.free _ _ hmessage hmessage' (hkey.symm.trans hkey')
  obtain ⟨hform, hoptions, hversion⟩ :=
    Canonical.ofValue_triple_inj (Canonical.ofValue_eq_of_bytes hbytes' hbytes)
  obtain rfl := hforms _ _ _ _ hy hx hform
  obtain rfl := hcur.unique u t hu hcur.seen (Int.ofNat_inj.1 (Canonical.ofValue_int_inj hversion))
  rw [← hdirect]
  exact (direct_alike (Options.affecting_inj hoptions)).symm

/-- What a call on a current engine computes may be kept. -/
theorem Kept.keeps (hforms : (historyOf e ss (e.Kept ss content)).FormsApart)
    (hseen : (historyOf e ss (e.Kept ss content)).seen t) (hd : d.IsFrom content)
    (hl : (historyOf e ss (e.Kept ss content)).Lists t (.filter d q)) :
    (historyOf e ss (e.Kept ss content)).Keeps t d q := by
  intro o node records f key v ho hvalid hrecords hslot hanswer
  obtain ⟨hf, bytes, hbytes, hkey⟩ := slotOf_eq_some hslot
  obtain rfl := eq_of_fingerprint? hd hf
  have hx := hl.asks.requested o ho
  obtain ⟨_, hexpression, hcheck⟩ := Outcome.bind_eq_ok.1 (hvalid.eq_check hforms hx).symm
  refine ⟨t, q.expression, o, bytes, hseen, hx, hbytes, hl.digested bytes ?_, hkey, ?_⟩
  · have ho :
        Options.resolve ((historyOf e ss (e.Kept ss content)).at' t).defaults q.given q.overrides = .ok o := ho
    simp only [Step.messages, ho, List.mem_append]
    exact .inr (Outcome.mem_toList.2 hbytes)
  · rw [direct, show (e.withTable t).expressionBytes _ _ = _ from hexpression, Outcome.ok_bind,
      show (e.withTable t).check _ _ = _ from hcheck, Outcome.ok_bind, hrecords]
    exact hanswer

/-! ## Transparency -/

variable {settings : Settings} {t' : Table} {shared shared' : Bool} {environment : Environment} {now : Moment}
  {q' : Query}

/-- A call on a new engine that asks for no kept result comes to what it does without stores. -/
theorem Made.filter_eq (hm : Made settings t shared environment now e)
    (ho : ∀ o, Options.resolve e.defaults q.given q.overrides = .ok o →
      o.debug = false ∧ o.enableCache = false) :
    (Engine.filter d q e).1 = e.outcomeOf d q := by
  let h : History := {
    base := e
    digested := fun bytes => ∃ o, Options.resolve e.defaults q.given q.overrides = .ok o ∧
      (e.withTable t).expressionBytes q.expression (.int o.maxDepth) = .ok bytes
    requested := fun x _ => x = q.expression
    seen := (· = t)
    keepable := fun _ _ _ => True }
  have hs : Sound h t e := Made.sound hm
  have hcur : h.Current t := by
    refine ⟨rfl, fun u v hu hv _ => hu.trans hv.symm, ?_⟩
    rintro a b ⟨o, ho, ha⟩ ⟨o', ho', hb⟩ -
    obtain rfl := Except.ok.inj (ho.symm.trans ho')
    exact Except.ok.inj (ha.symm.trans hb)
  have hforms : h.FormsApart := fun x y _ _ hx hy _ => hx.trans hy.symm
  have ha : h.Asks t q := ⟨fun _ _ => rfl, fun o bytes ho hb => ⟨o, ho, hb⟩⟩
  have hout := (filter_ensures (d := d) hcur ha (.of_forall fun _ _ _ => trivial)
    (fun _ _ _ _ _ _ => trivial) e hs).2
  have heq := hout.eq_outcomeOf hforms ha (fun o hr => (ho o hr).1) fun o node records r hr _ _ hc => by
    unfold Cached at hc
    rwa [slotOf_uncached (ho o hr).2] at hc
  have hbase : h.at' t = e := by show { e with table := t } = e; rw [← hm.table]
  rw [heq, hbase]

/-- What makes the calls of a run repeatable: collections stay as they are, digests tell keys apart, and
forms tell expressions apart. -/
structure Repeatable (e : Engine) (content : Nat → Value) (ss : List Step) : Prop where
  filters : ∀ d q, Step.filter d q ∈ ss → d.IsFrom content
  collisionFree : e.CollisionFree ss
  forms : ∀ x y depth depth', (x, depth) ∈ e.requests ss → (y, depth') ∈ e.requests ss →
    Canonical.ofValue x = Canonical.ofValue y → x = y

/-- A call in a repeatable run comes to what it does without stores. -/
theorem Made.filter_after_eq (hm : Made settings t shared environment now e) {n : Nat}
    (hroom : readBound .cacheSize e.results.maxResults = .ok n)
    (hrun : e.Repeatable content (ss ++ [.filter d q])) (hversion : VersionFits (e.after ss).table)
    (ho : ∀ o, Options.resolve e.defaults q.given q.overrides = .ok o → o.debug = false ∧ o.Encodable) :
    (Engine.filter d q (e.after ss)).1 = (e.withTable (e.after ss).table).outcomeOf d q := by
  have hstart : Sound (historyOf e (ss ++ [.filter d q]) (e.Kept (ss ++ [.filter d q]) content)) e.table e :=
    Made.sound (hm.table.symm ▸ hm)
  have hforms : (historyOf e (ss ++ [.filter d q]) (e.Kept (ss ++ [.filter d q]) content)).FormsApart :=
    hrun.forms
  have hs := hstart.before hrun.collisionFree (fun _ => Kept.respects) fun u d' q' hmem hseen hl =>
    Kept.keeps hforms hseen (hrun.filters d' q' (List.mem_append_left _ hmem)) hl
  have hl := hs.lists_next
  have hcur := historyOf_current (e.Kept (ss ++ [.filter d q]) content) hrun.collisionFree
    (tables_append_left (mem_tables_last ss e.table))
  have hd : d.IsFrom content := hrun.filters d q (by simp)
  have hout := (filter_ensures hcur hl.asks (Kept.keeps hforms hcur.seen hd hl)
    (fun _ => Kept.respects) _ hs).2
  rw [hs.table] at hversion ⊢
  refine hout.eq_outcomeOf hforms hl.asks (fun o hr => (ho o hr).1) fun o node records r hr hdirect
    ⟨_, hkey⟩ hc => ?_
  -- a result has a key when its expression has one
  have hfits := (expressionBytes_ok (e := e.withTable (lastTable ss e.table)) hversion _ _).1 ⟨_, hkey⟩
  obtain ⟨bytes, hbytes⟩ :
      ∃ bytes, (e.withTable (lastTable ss e.table)).resultBytes q.expression o = .ok bytes :=
    Canonical.bytes_triple.2 ⟨hfits.1, (ho o hr).2.fits, Canonical.fitsIn_nat hversion⟩
  unfold Cached at hc
  obtain ⟨slot, hslot⟩ := slotOf_ok (d := d) hbytes
  rw [show (History.at' _ _).slotOf o d q = .ok slot from hslot] at hc
  rcases slot with _ | ⟨f, key⟩
  · exact hc
  rcases hc with hc | ⟨v, rfl, hkept⟩
  · exact hc ⟨n, hroom⟩
  obtain ⟨hf, bytes, hbytes, hdigest⟩ := slotOf_eq_some hslot
  obtain rfl := eq_of_fingerprint? hd hf
  have hmessage : bytes ∈ e.messages (ss ++ [.filter _ q]) := hl.digested bytes (by
    have hr : Options.resolve (e.withTable (lastTable ss e.table)).defaults q.given q.overrides = .ok o := hr
    simp only [historyOf, Step.messages, hr, List.mem_append]
    exact .inr (Outcome.mem_toList.2 hbytes))
  rw [← hdirect]
  exact (Kept.direct_eq hcur hforms (hl.asks.requested o hr) hbytes hmessage hdigest hkept).symm

/-! ## A call made twice -/

open Canonical

def twoRecords : Value := .list [.ofPairs [("f", .int 1)], .ofPairs [("f", .int 2)]]

/-- A call for the records of which a field is one, with or without kept results. -/
def ones (enableCache : Bool) : Query where
  expression := fieldQuery (.int 1)
  overrides := [(.text "enable_cache", .bool enableCache)]

theorem resolve_ones (he : IsStandard e) (b : Bool) :
    Options.resolve e.defaults (ones b).given (ones b).overrides = .ok { enableCache := b } := by
  obtain rfl := Except.ok.inj he
  cases b <;> rfl

/-- The form of standard options. -/
def standardForm : Value :=
  tagged mapTag [.list
    [.list [.text "case_sensitive", .bool false], .list [.text "custom_comparator", .null],
     .list [.text "limit", .null], .list [.text "max_depth", .int 3],
     .list [.text "order_by", tagged listTag [.list []]]]]

theorem ofValue_affecting_standard (b : Bool) :
    ofValue ({ enableCache := b } : Options).affecting = standardForm := by
  rw [Options.affecting, ofValue_ofPairs]
  simp only [orderKeys, Nat.cast_ofNat, List.map_nil, Option.map_none, Option.getD_none, List.map_cons,
    List.mergeSort, List.length_cons, List.length_nil, Nat.reduceAdd, Nat.reduceDiv,
    List.MergeSort.Internal.splitInTwo, zero_add, List.splitAt_eq, List.take_succ_cons, List.take_zero,
    List.drop_succ_cons, List.drop_zero, List.mergeSort_singleton, String.reduceLT, decide_false,
    Bool.not_false, List.cons_merge_cons_pos, List.nil_merge, decide_true, Bool.not_true,
    Bool.false_eq_true, not_false_eq_true, List.cons_merge_cons_neg, List.merge_right]
  rfl

theorem digests_apart (he : IsStandard e) {a b : List UInt8}
    (ha : e.expressionBytes (fieldQuery (.int 1)) (.int 3) = .ok a)
    (hb : e.resultBytes (fieldQuery (.int 1)) { enableCache := true } = .ok b) :
    e.environment.digest a ≠ e.environment.digest b := by
  have hm := make?_made he
  have hform (v : Value) : ofValue (.list [fieldQuery (.int 1), v, .int Table.builtins.version]) =
      tagged listTag [.list [ofValue (fieldQuery (.int 1)), ofValue v, .int 31]] := rfl
  rw [expressionBytes, hm.table, bytes_eq_ok, hform, show ofValue (.int 3) = .int 3 from rfl] at ha
  rw [resultBytes, hm.table, bytes_eq_ok, hform, ofValue_affecting_standard] at hb
  have hdigests :
      (MessagePack.encode
          (tagged listTag [.list [ofValue (fieldQuery (.int 1)), .int 3, .int 31]])).toOption.map keyDigest ≠
        (MessagePack.encode
          (tagged listTag [.list [ofValue (fieldQuery (.int 1)), standardForm, .int 31]])).toOption.map
            keyDigest := by
    decide +kernel
  rw [ha, hb] at hdigests
  rw [hm.environment]
  exact fun h => hdigests (congrArg some h)

theorem mem_messages_ones (he : IsStandard e) {b : List UInt8} (hb : b ∈ e.messages [.filter d (ones true)]) :
    e.expressionBytes (fieldQuery (.int 1)) (.int 3) = .ok b ∨
      e.resultBytes (fieldQuery (.int 1)) { enableCache := true } = .ok b := by
  simp only [messages, Step.messages, resolve_ones he, List.append_nil, List.mem_append,
    Outcome.mem_toList] at hb
  exact hb

theorem collisionFree_ones (he : IsStandard e) : e.CollisionFree [.filter d (ones true)] := by
  intro a ha b hb hab
  rcases mem_messages_ones he ha with ha | ha <;> rcases mem_messages_ones he hb with hb | hb
  · exact Except.ok.inj (ha.symm.trans hb)
  · exact absurd hab (digests_apart he ha hb)
  · exact absurd hab.symm (digests_apart he hb ha)
  · exact Except.ok.inj (ha.symm.trans hb)

/-- A call that is made twice in a row uses the same keys again. -/
theorem CollisionFree.again (hm : Made settings t shared environment now e)
    (hfree : e.CollisionFree [.filter d q]) :
    ((Step.filter d q).next e).table = e.table ∧ e.CollisionFree [.filter d q, .filter d q] := by
  have hs : Sound (historyOf e [.filter d q] fun _ _ _ => True) e.table e := Made.sound (hm.table.symm ▸ hm)
  have hcur := historyOf_current (fun _ _ _ => True) hfree (List.mem_cons_self ..)
  have hlists : (historyOf e [.filter d q] fun _ _ _ => True).Lists e.table (.filter d q) :=
    (show Sound (historyOf e ([] ++ [.filter d q]) fun _ _ _ => True) e.table (e.after []) from hs).lists_next
  have hnext := hs.next hcur (fun _ _ _ _ _ _ => trivial) hlists
    fun _ _ _ => .of_forall fun _ _ _ => trivial
  refine ⟨hnext.table, ?_⟩
  have hmessages : e.messages [.filter d q, .filter d q] =
      e.messages [.filter d q] ++ e.messages [.filter d q] := by
    have hstep := (hnext.step_eqs (.filter d q)).2.trans (hs.step_eqs (.filter d q)).2.symm
    simp only [messages, List.append_nil, hstep]
  have hmem {a : List UInt8} (ha : a ∈ e.messages [.filter d q, .filter d q]) :
      a ∈ e.messages [.filter d q] := by
    rw [hmessages] at ha
    exact (List.mem_append.1 ha).elim id id
  exact fun a ha b hb => hfree a (hmem ha) b (hmem hb)

end Engine
end Winnow
