import Winnow.Proofs.Engine.History
/-! # When validation with a store is as good as a fresh check

An engine keeps the trees of expressions under the digests of their canonical forms. So a validation may
hand out the tree of another expression with the same form, and fails where there is no form. It is as
good as a fresh check in every run exactly when, at every table that the engine can come to, expressions
with one form are checked alike and expressions without a key are rejected. -/

namespace Winnow.Engine

variable {e : Engine} {t u : Table} {ss : List Step} {x y depth : Value} {S : Value → Value → Prop}
  {settings : Settings} {shared : Bool} {environment : Environment} {now : Moment}

/-- Do two trees match the same records, with all options and at all times? -/
def SameMatches (e : Engine) (m n : Node) : Prop :=
  ∀ (now : Moment) (o : Options) (record : Value),
    { e with now }.passes o m record = .ok true ↔ { e with now }.passes o n record = .ok true

/-- Do both outcomes fail, or give trees that match the same records? -/
def Agree (e : Engine) : Outcome Node → Outcome Node → Prop
  | .ok m, .ok n => e.SameMatches m n
  | .error _, .error _ => True
  | _, _ => False

theorem Agree.refl (e : Engine) (r : Outcome Node) : e.Agree r r := by
  rcases r with f | n
  · trivial
  · exact fun _ _ _ => Iff.rfl

/-- Do the keys of an engine keep apart what a fresh check tells apart? -/
structure KeysApart (e : Engine) (S : Value → Value → Prop) : Prop where
  /-- an expression without a key is rejected -/
  keyless : ∀ x depth f, S x depth → e.expressionBytes x depth = .error f →
    ∃ g, e.check x depth = .error g
  /-- expressions with the same canonical form are checked alike -/
  alike : ∀ x y depth node, S x depth → S y depth → Canonical.ofValue x = Canonical.ofValue y →
    e.check x depth = .ok node → e.Agree (.ok node) (e.check y depth)

/-! ## A store never does worse than the keys allow -/

theorem Sound.agree_iff {h : History} (hs : Sound h t e) (a b : Outcome Node) :
    e.Agree a b ↔ (h.at' t).Agree a b := by
  rcases a with _ | m <;> rcases b with _ | n <;>
    simp only [Agree, SameMatches, passes, withTable, hs.table, hs.environment, hs.maxLength]

theorem Validated.agree {h : History} (hv : KeysApart (h.at' t) S)
    (hS : ∀ x depth, h.requested x depth → S x depth)
    (hx : S x depth) {r : Outcome Node} (hr : Validated h t x depth r) :
    (h.at' t).Agree r ((h.at' t).check x depth) := by
  cases hr with
  | keyless hkey =>
    obtain ⟨g, hg⟩ := hv.keyless x depth _ hx hkey
    rw [hg]
    trivial
  | fresh hkey => exact .refl ..
  | kept hkey hy hform hcheck => exact hv.alike _ x depth _ (hS _ _ hy) hx hform hcheck

/-- The store of an engine is empty and holds an entry at least. -/
structure Unused (e : Engine) : Prop where
  entries : e.expressions.entries = []
  room : 1 ≤ e.expressions.maxSize

theorem depthOf_self (hdepth : depth.isNull = false) : e.depthOf depth = depth := by simp [depthOf, hdepth]

theorem expressionKey_of_bytes {bytes : List UInt8} (hx : e.expressionBytes x depth = .ok bytes) :
    e.expressionKey x depth = .ok (e.environment.digest bytes) :=
  congrArg (Except.map e.environment.digest) hx

theorem validate_kept {key : String} {node : Node} (hkey : e.expressionKey x (e.depthOf depth) = .ok key)
    (hfind : e.expressions.find? key = some node) : (validate x depth e).1 = .ok node := by
  rw [validate_run, hkey]
  rw [← Recent.get_fst] at hfind
  rcases hg : e.expressions.get key with ⟨kept, expressions⟩
  rw [hg] at hfind
  simp only [hg, show kept = some node from hfind]

/-- After a validation, every expression with the same key is given the same tree. -/
theorem validate_again (he : e.Unused) {bytes : List UInt8} {node : Node}
    (hx : e.expressionBytes x depth = .ok bytes) (hy : e.expressionBytes y depth = .ok bytes)
    (hdepth : depth.isNull = false) (hcheck : e.check x depth = .ok node) :
    ∃ store, (validate x depth e).2 = { e with expressions := store } ∧
      (validate y depth { e with expressions := store }).1 = .ok node := by
  have hget : e.expressions.get (e.environment.digest bytes) =
      (none, { e.expressions with misses := e.expressions.misses + 1 }) := by
    simp [Recent.get, Recent.find?, he.entries]
  refine ⟨{ e.expressions with misses := e.expressions.misses + 1 }.put (e.environment.digest bytes) node,
    ?_, ?_⟩
  · rw [validate_run, depthOf_self hdepth, expressionKey_of_bytes hx]
    simp only [hget, hcheck]
  · refine validate_kept ?_ (Recent.find?_put he.room)
    rw [depthOf_self hdepth]
    exact expressionKey_of_bytes (e := { e with expressions := _ }) hy

/-! ## Runs that change nothing but the table -/

theorem reaches_run (h : t.Reaches u) (ht : e.table = t) :
    ∃ ss, e.after ss = e.withTable u ∧ e.requests ss = [] ∧ e.messages ss = [] := by
  induction h with
  | refl => exact ⟨[], by rw [← ht]; rfl, rfl, rfl⟩
  | register o overwrite _ hr ih =>
    obtain ⟨ss, hafter, hreq, hmsg⟩ := ih
    refine ⟨ss ++ [.register o overwrite], ?_, by rw [requests_append, hreq]; rfl,
      by rw [messages_append, hmsg]; rfl⟩
    rw [after_append, hafter]
    simp only [after, Step.next, Request.onTable, withTable, hr, Outcome.map_ok]
  | unregister name _ hr ih =>
    obtain ⟨ss, hafter, hreq, hmsg⟩ := ih
    refine ⟨ss ++ [.unregister name], ?_, by rw [requests_append, hreq]; rfl,
      by rw [messages_append, hmsg]; rfl⟩
    rw [after_append, hafter]
    simp only [after, Step.next, Request.onTable, withTable, hr, Outcome.map_ok]

/-! ## Transparency -/

/-- Is every validation in a run, with all its calls and limits from `S`, as good as a fresh check at that
moment? -/
def Transparent (e : Engine) (S : Value → Value → Prop) : Prop :=
  ∀ (ss : List Step) (x maxDepth : Value),
    (∀ r ∈ e.requests (ss ++ [.validate x maxDepth]), S r.1 r.2) →
    e.CollisionFree (ss ++ [.validate x maxDepth]) →
    (e.after ss).Agree (validate x maxDepth (e.after ss)).1 ((e.after ss).check x (e.depthOf maxDepth))

theorem bytes_eq_of_form (hform : Canonical.ofValue x = Canonical.ofValue y) :
    e.expressionBytes x depth = e.expressionBytes y depth := by
  have hkey (z : Value) : Canonical.ofValue (.list [z, depth, .int e.table.version]) =
      Canonical.tagged Canonical.listTag [.list [Canonical.ofValue z, Canonical.ofValue depth,
        Canonical.ofValue (.int e.table.version)]] := rfl
  rw [expressionBytes, expressionBytes, Canonical.bytes, Canonical.bytes, hkey, hkey, hform]

theorem KeysApart.transparent (hm : Made settings t shared environment now e)
    (hv : ∀ u, t.Reaches u → (e.withTable u).KeysApart S) : e.Transparent S := by
  intro ss x maxDepth hS hfree
  have hstart : Sound (historyOf e (ss ++ [.validate x maxDepth]) fun _ _ _ => True) e.table e :=
    Made.sound (hm.table.symm ▸ hm)
  have hs := hstart.before hfree (fun _ _ _ _ _ _ => trivial)
    fun _ _ _ _ _ _ => .of_forall fun _ _ _ => trivial
  have hl := hs.lists_next
  have hcur := historyOf_current (fun _ _ _ => True) hfree
    (tables_append_left (mem_tables_last ss e.table))
  have hvalid := (validate_ensures hcur _ _ (hl.requested _ rfl)
    (fun bytes hb => hl.digested bytes (Outcome.mem_toList.2 hb)) _ hs).2
  have hreach : t.Reaches (lastTable ss e.table) := lastTable_reaches ss (hm.table.symm ▸ .refl t)
  rw [hs.agree_iff, hs.check_eq]
  exact hvalid.agree (hv _ hreach) (fun x depth hx => hS _ hx) (hS _ (hl.requested _ rfl))

/-- A run of validations with one key has no collision. -/
theorem collisionFree_of_one (bytes : List UInt8) (h : ∀ b ∈ e.messages ss, b = bytes) : e.CollisionFree ss :=
  fun a ha b hb _ => (h a ha).trans (h b hb).symm

theorem mem_messages_validate {bytes : List UInt8} {maxDepth : Value}
    (h : bytes ∈ e.messages (ss ++ [.validate x maxDepth])) :
    bytes ∈ e.messages ss ∨ (e.after ss).expressionBytes x ((e.after ss).depthOf maxDepth) = .ok bytes := by
  rw [messages_append, List.mem_append] at h
  refine h.imp_right fun h => ?_
  simp only [messages, Step.messages, List.append_nil] at h
  exact Outcome.mem_toList.1 h

/-- Transparency stays when the table changes. -/
theorem Transparent.withTable (ht : e.Transparent S) (hu : e.table.Reaches u) :
    (e.withTable u).Transparent S := by
  obtain ⟨ss, hafter, hreq, hmsg⟩ := reaches_run hu rfl
  intro ss' x maxDepth hS hfree
  have hagree := ht (ss ++ ss') x maxDepth
  rw [List.append_assoc, requests_append, hreq, CollisionFree, messages_append, hmsg, after_append,
    hafter] at hagree
  exact hagree hS hfree

theorem Transparent.keyless (ht : e.Transparent S) {f : Failure} (hx : S x depth)
    (hf : e.expressionBytes x depth = .error f) : ∃ g, e.check x depth = .error g := by
  by_cases hd : depth.isNull = true
  · cases depth <;> cases hd
    exact ⟨_, rfl⟩
  have hself : e.depthOf depth = depth := depthOf_self (by simpa using hd)
  have hagree := ht [] x depth
    (fun r hr => by obtain rfl := List.mem_singleton.1 hr; rwa [hself])
    (collisionFree_of_one [] fun b hb => by
      rcases mem_messages_validate hb with hb | hb
      · cases hb
      · rw [after, hself, hf] at hb; cases hb)
  rw [after, hself, validate_run, hself,
    show e.expressionKey x depth = .error f from congrArg (Except.map _) hf]
    at hagree
  rcases hc : e.check x depth with g | node
  · exact ⟨g, rfl⟩
  · rw [hc] at hagree; exact hagree.elim

/-- The tree that the first of two expressions with one form was given is handed out for the second. -/
theorem Transparent.keysApart (ht : e.Transparent S) (he : e.Unused) : e.KeysApart S := by
  refine ⟨fun _ _ _ => ht.keyless, fun x y depth node hx hy hform hcheck => ?_⟩
  obtain ⟨n, rfl, -, -⟩ := check_depth hcheck
  rcases hbytes : e.expressionBytes x (.int n) with f | bytes
  · obtain ⟨g, hg⟩ := ht.keyless hx hbytes
    rw [hcheck] at hg
    cases hg
  have hbytes' : e.expressionBytes y (.int n) = .ok bytes := bytes_eq_of_form hform ▸ hbytes
  obtain ⟨store, hfirst, hsecond⟩ := validate_again he hbytes hbytes' rfl hcheck
  have hafter : e.after [.validate x (.int n)] = { e with expressions := store } := hfirst
  have hagree := ht [.validate x (.int n)] y (.int n)
    (fun r hr => by
      simp only [requests, List.singleton_append, List.filterMap_cons, List.filterMap_nil, Step.request?,
        List.mem_cons, List.not_mem_nil, or_false] at hr
      rcases hr with rfl | rfl <;> assumption)
    (collisionFree_of_one bytes fun b hb => by
      rcases mem_messages_validate hb with hb | hb
      · rcases mem_messages_validate (show b ∈ e.messages ([] ++ [.validate x (.int n)]) from hb) with hb | hb
        · cases hb
        · exact Except.ok.inj (hb.symm.trans hbytes)
      · rw [hafter] at hb
        exact Except.ok.inj (hb.symm.trans hbytes'))
  rw [hafter, hsecond] at hagree
  exact hagree

/-! ## A standard engine -/

theorem isReading_noon : isReading 12 0 0 0 = true := by decide

def noon : Moment where
  date := ⟨2024, 6, 1, by decide⟩
  hour := 12
  minute := 0
  second := 0
  micro := 0
  offset := none
  isReading := isReading_noon
  isOffset := all_isOffset_none

/-- A new engine with the built-in operators and standard settings. -/
abbrev IsStandard (e : Engine) : Prop :=
  Engine.make? Settings.standard Table.builtins false Environment.standard noon = .ok e

theorem exists_isStandard : ∃ e, IsStandard e := ⟨_, rfl⟩

/-- A query for the records of which a field equals a value. -/
def fieldQuery (v : Value) : Value := .ofPairs [("f", .ofPairs [("$eq", v)])]

def fieldNode (v : Value) : Node := .field "f" (.tests [.apply "$eq" (.value v) v])

theorem check_fieldQuery (he : IsStandard e) (v : Value) :
    e.check (fieldQuery v) (.int 3) = .ok (fieldNode v) := by
  obtain rfl := Except.ok.inj he
  rfl

end Winnow.Engine
