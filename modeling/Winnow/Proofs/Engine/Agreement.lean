import Winnow.Proofs.Engine.EntryPoints
import Winnow.Proofs.Engine.Validation
/-! # All ways to ask agree

On every engine that can come about, and after any calls for the same expression, the ways to ask for the
records that match make one list of them: filtering gives it up to the limit, chunks cut it, counting
gives its length, and so on. The invariant of the calls is that the engine stays set up and serves the
same tree; tests that do not fail then make every scan a filter of the records. -/

namespace Winnow.Engine
open Request

variable {base e e₀ : Engine} {o : Options} {node : Node} {d : Data} {q : Query} {records : List Value}
  {x : Value} {t : Table} {settings : Settings} {shared : Bool} {environment : Environment} {now : Moment}

/-! ## Engines that can come about -/

/-- Has the store room for a tree? -/
def Roomy (s : Recent String Node) : Prop := 1 ≤ s.maxSize

/-- Does the engine compile as the compiler does, and has it room for a tree? -/
structure Usable (e : Engine) : Prop where
  patterns : e.patterns.Sound
  room : Roomy e.expressions

theorem Usable.fits (h : e.Usable) : Fits e Roomy e where
  table := rfl
  sharesTable := rfl
  environment := rfl
  now := rfl
  defaults := rfl
  maxLength := rfl
  patterns := h.patterns
  expressions := h.room
  results := trivial

theorem usable_of_fits (h : Fits base Roomy e) : e.Usable := ⟨h.patterns, h.expressions⟩

theorem validate_roomy (x depth : Value) : Keeps (Fits base Roomy) (validate x depth) :=
  validate_fits (fun _ _ hs => Nat.le_trans hs (Nat.le_of_eq Recent.maxSize_get.symm)) fun _ _ _ hs => hs

theorem keepsTrees_roomy (q : Query) : KeepsTrees base Roomy q :=
  fun o _ => validate_roomy q.expression (.int o.maxDepth)

theorem onTable_usable (f : Table → Outcome (Unit × Table)) (h : e.Usable) : (onTable f e).2.Usable := by
  unfold onTable
  split
  · exact ⟨h.patterns, h.room⟩
  · exact h

theorem Usable.next (h : e.Usable) (s : Step) : (s.next e).Usable := by
  cases s with
  | validate x depth => exact usable_of_fits (validate_roomy x depth e h.fits).1
  | filter d q => exact usable_of_fits (filter_fits (keepsTrees_roomy q) e h.fits).1
  | filterTraced d q =>
    have htraced : Keeps (Fits e Roomy) (filterTraced d q) :=
      (prepare_fits (keepsTrees_roomy q)).bind fun _ => runTraced_fits
    exact usable_of_fits (htraced e h.fits).1
  | clear => exact ⟨PatternStore.clear_sound, h.room⟩
  | register o overwrite => exact onTable_usable _ h
  | unregister name => exact onTable_usable _ h

/-- Engines that come about from one: by steps, by calls, and by reading on with cursors. -/
inductive Reached (e₀ : Engine) : Engine → Prop
  | start : Reached e₀ e₀
  | step {e : Engine} (s : Step) : Reached e₀ e → Reached e₀ (s.next e)
  | call {e : Engine} (c : Call) : Reached e₀ e → Reached e₀ (c.next e)
  | read {e : Engine} (c : Cursor) (count : Option Nat) (records : List Value) :
    Reached e₀ e → Reached e₀ (c.next count records e).2.2

theorem Reached.usable (hmake : Engine.make? settings t shared environment now = .ok e₀)
    (h : e₀.Reached e) : e.Usable := by
  induction h with
  | start =>
    have hm := make?_made hmake
    exact ⟨hm.patterns, hm.room⟩
  | step s _ ih => exact ih.next s
  | call c _ ih => exact usable_of_fits (c.next_fits (keepsTrees_roomy _) ih.fits)
  | read c count records _ ih => exact usable_of_fits (cursor_next_fits c ih.fits)

/-! ## Calls for one expression -/

/-- Is it a call for an expression, with a nesting limit? -/
def Call.AsksFor (c : Call) (defaults : Options) (x : Value) (maxDepth : Nat) : Prop :=
  c.query.expression = x ∧
    ∀ o, Options.resolve defaults c.query.given c.query.overrides = .ok o → o.maxDepth = maxDepth

/-- The engine that calls leave. -/
def afterCalls (e : Engine) : List Call → Engine
  | [] => e
  | c :: cs => (c.next e).afterCalls cs

/-- Calls for an expression are served its tree, and leave an engine that serves it. -/
theorem afterCalls_serves {maxDepth : Nat} {cs : List Call}
    (hcs : ∀ c ∈ cs, c.AsksFor base.defaults x maxDepth)
    (hs : Serving base x (.int maxDepth) node e) :
    Serving base x (.int maxDepth) node (e.afterCalls cs) := by
  induction cs generalizing e with
  | nil => exact hs
  | cons c cs ih =>
    obtain ⟨rfl, hdepth⟩ := hcs c (List.mem_cons_self ..)
    refine ih (fun c' hc' => hcs c' (List.mem_cons_of_mem _ hc')) (c.next_fits (fun o ho => ?_) hs)
    obtain rfl := hdepth o ho
    exact (validate_serves rfl).keeps

/-! ## Scans that do not fail -/

/-- Do tests of the records come to what a predicate says? -/
def Decides (e : Engine) (o : Options) (node : Node) (records : List Value) (p : Value → Bool) : Prop :=
  ∀ record ∈ records, e.passes o node record = .ok (p record)

theorem exists_decides (h : ∀ record ∈ records, ∃ b, e.passes o node record = .ok b) :
    ∃ p, e.Decides o node records p := by
  refine ⟨fun record => (e.passes o node record).toOption.getD false, fun record hr => ?_⟩
  obtain ⟨b, hb⟩ := h record hr
  simp only [hb, Except.toOption, Option.getD_some]

variable {p : Value → Bool}

theorem Decides.found (h : e.Decides o node records p) (wanted : Option Nat) :
    e.found o node wanted records = .ok (Scan.upTo wanted (records.filter p)) := by
  obtain ⟨hfailure, hfound⟩ := Scan.run_of_total (e.passes o node) p records h wanted
  rw [Engine.found, Scan.outcome, hfailure, hfound]

/-- All records that match, in the order that is asked for. -/
def sorted (o : Options) (records : List Value) (p : Value → Bool) : List Value :=
  sortRecords o.orderBy o.caseSensitive (records.filter p)

theorem length_sorted : (sorted o records p).length = (records.filter p).length := by
  unfold sorted sortRecords
  split
  · rfl
  · exact List.length_mergeSort _

theorem arrange_eq_upTo (records : List Value) : arrange o.orderBy (o.limit.map Int.ofNat) o.caseSensitive records =
    Scan.upTo o.limit (sortRecords o.orderBy o.caseSensitive records) := by
  unfold arrange
  cases o.limit with
  | none => rfl
  | some n => rfl

theorem Decides.answer (h : e.Decides o node records p) :
    e.answer o node records = .ok (Scan.upTo o.limit (sorted o records p)) := by
  unfold Engine.answer
  split
  · next hempty => rw [h.found, sorted, sortRecords, if_pos hempty]
  · rw [h.found, Outcome.map_ok, Scan.upTo_none, arrange_eq_upTo, sorted]

/-! ## Limits -/

theorem upTo_least {α : Type} (n : Nat) (limit : Option Nat) (xs : List α) :
    Scan.upTo (least (some n) limit) xs = (Scan.upTo limit xs).take n := by
  cases limit with
  | none => rfl
  | some k => exact List.take_take.symm

theorem least_none (limit : Option Nat) : least none limit = limit := by
  cases limit <;> rfl

/-- Whether there is an item up to a limit depends on nothing but the number of items. -/
theorem isEmpty_upTo {α : Type} {xs ys : List α} (h : xs.length = ys.length) {limit : Option Nat}
    (hl : limit ≠ some 0) : (Scan.upTo limit xs).isEmpty = (Scan.upTo (some 1) ys).isEmpty := by
  cases xs with
  | nil =>
    obtain rfl := List.length_eq_zero_iff.1 h.symm
    rw [Scan.upTo_nil, Scan.upTo_nil]
  | cons x xs =>
    cases ys with
    | nil => cases h
    | cons y ys => rw [Scan.upTo_cons limit hl]; rfl

theorem readCount_int {name : String} {n : Nat} (hpos : 1 ≤ n) (hmax : n ≤ Options.maxLimit) :
    readCount name (.int n) = .ok n := by
  have hcount : Options.checkCount name (.int n) = .ok (some n) := by
    simp only [Options.checkCount]
    rw [if_neg (by omega), if_neg (by omega), Int.toNat_natCast]
  rw [readCount, hcount]
  rfl

/-! ## Agreement -/

/-- Do all ways to ask for the records that match come to one result? With an order, cursors are refused. -/
structure AllGive (e : Engine) (q : Query) (o : Options) (records result : List Value) : Prop where
  filter (d : Data) (hd : d.records = .ok records) : (Engine.filter d q e).1 = .ok result
  chunks (d : Data) (hd : d.records = .ok records) (n : Nat) (hpos : 1 ≤ n) (hmax : n ≤ Options.maxLimit) :
    ∃ cs, (filterChunks d q (.int n) e).1 = .ok cs ∧ Chunks.Covers n result cs
  first (d : Data) (hd : d.records = .ok records) (n : Nat) (hpos : 1 ≤ n) (hmax : n ≤ Options.maxLimit) :
    (Engine.first d q (.int n) e).1 = .ok (result.take n)
  anyMatch (d : Data) (hd : d.records = .ok records) : (Engine.anyMatch d q e).1 = .ok (!result.isEmpty)
  count (d : Data) (hd : d.records = .ok records) : (Engine.count d q e).1 = .ok result.length
  lazily (d : Data) (hd : d.records = .ok records) (horder : o.orderBy = []) :
    (filterLazily d q none e).1 = .ok result
  chunksLazily (d : Data) (hd : d.records = .ok records) (horder : o.orderBy = []) (n : Nat) (hpos : 1 ≤ n)
    (hmax : n ≤ Options.maxLimit) :
    ∃ cs, (filterChunksLazily d q (.int n) e).1 = .ok cs ∧ Chunks.Covers n result cs
  arriving (horder : o.orderBy = []) : (filterArriving (.stream .arriving records) q e).1 = .ok result

theorem Decides.firstFound (h : e.Decides o node records p) (n : Nat) :
    e.firstFound o node n records = .ok ((Scan.upTo o.limit (sorted o records p)).take n) := by
  unfold Engine.firstFound
  split
  · next hempty => rw [h.found, upTo_least, sorted, sortRecords, if_pos hempty]
  · rw [h.answer]; rfl

theorem Decides.lazilyFound (h : e.Decides o node records p) (horder : o.orderBy = []) :
    e.lazilyFound o node none records = .ok (Scan.upTo o.limit (sorted o records p)) := by
  have hempty : o.orderBy.isEmpty = true := by rw [horder]; rfl
  rw [Engine.lazilyFound, rejectOrder, if_pos hempty, Outcome.ok_bind, h.found, least_none, sorted,
    sortRecords, if_pos hempty]

/-- An engine that serves a tree answers from it, without a trace and kept results. -/
theorem filter_served (ho : Options.resolve base.defaults q.given q.overrides = .ok o) (hcache : o.enableCache = false)
    (hdebug : o.debug = false) (hd : d.records = .ok records) :
    Ensures (Serving base q.expression (.int o.maxDepth) node) (Engine.filter d q)
      (· = base.answer o node records) := by
  refine (filter_comesTo (prepare_served ho hd) fun p hp => ?_).mono fun r hr => ?_
  · obtain rfl := Except.ok.inj hp
    exact ⟨hdebug, hcache⟩
  · obtain ⟨_, rfl, rfl⟩ := hr
    rfl

/-- An engine that serves a tree gives all records that match, up to the limit, to all who ask. -/
theorem Decides.allGive (h : base.Decides o node records p)
    (hs : Serving base q.expression (.int o.maxDepth) node e)
    (ho : Options.resolve base.defaults q.given q.overrides = .ok o) (hcache : o.enableCache = false)
    (hdebug : o.debug = false) (hlimit : o.limit ≠ some 0) :
    e.AllGive q o records (Scan.upTo o.limit (sorted o records p)) := by
  have hprepare {d : Data} (hd : d.records = .ok records) :
      Ensures (Serving base q.expression (.int o.maxDepth) node) (prepare d q)
        (· = .ok (o, node, records)) := prepare_served ho hd
  have hfilter {d : Data} (hd : d.records = .ok records) :
      Ensures (Serving base q.expression (.int o.maxDepth) node) (Engine.filter d q)
        (· = .ok (Scan.upTo o.limit (sorted o records p))) := by
    rw [← h.answer]
    exact filter_served ho hcache hdebug hd
  have hlazily {d : Data} (hd : d.records = .ok records) (horder : o.orderBy = []) :
      Ensures (Serving base q.expression (.int o.maxDepth) node) (filterLazily d q none)
        (· = .ok (Scan.upTo o.limit (sorted o records p))) := by
    refine (lazily_comesTo (hprepare hd)).mono fun r hr => ?_
    obtain ⟨_, rfl, rfl⟩ := hr
    exact h.lazilyFound horder
  constructor
  case filter => exact fun d hd => (hfilter hd e hs).2
  case chunks =>
    intro d hd n hpos hmax
    obtain ⟨_, rfl, hr⟩ := (chunks_comesTo (hfilter hd) e hs).2 n (readCount_int hpos hmax)
    obtain ⟨cs, hsplit, hcovers⟩ := Chunks.split_covers hpos
    exact ⟨cs, hr.trans hsplit, hcovers⟩
  case first =>
    intro d hd n hpos hmax
    obtain ⟨_, rfl, hr⟩ := (first_comesTo (hprepare hd) e hs).2 n (readCount_int hpos hmax)
    exact hr.trans (h.firstFound n)
  case anyMatch =>
    intro d hd
    obtain ⟨_, rfl, hr⟩ := (anyMatch_comesTo (hprepare hd) e hs).2
    rw [hr, Outcome.ok_bind, h.found, isEmpty_upTo length_sorted hlimit]
    rfl
  case count =>
    intro d hd
    obtain ⟨_, rfl, hr⟩ := (count_comesTo (hprepare hd) e hs).2
    rw [hr, Outcome.ok_bind, h.found, Scan.length_upTo length_sorted]
    rfl
  case lazily => exact fun d hd horder => (hlazily hd horder e hs).2
  case chunksLazily =>
    intro d hd horder n hpos hmax
    obtain ⟨_, rfl, hr⟩ := (chunksLazily_comesTo (hlazily hd horder) e hs).2 n (readCount_int hpos hmax)
    obtain ⟨cs, hsplit, hcovers⟩ := Chunks.split_covers hpos
    exact ⟨cs, hr.trans hsplit, hcovers⟩
  case arriving =>
    intro horder
    obtain ⟨_, rfl, hr⟩ := (arriving_comesTo (resolve_served ho) e hs).2
    exact hr.trans (h.lazilyFound horder)

/-- There is one list of records such that, with any limit and after any calls for the expression, all who
ask are given its first ones up to the limit. -/
theorem calls_agree (hmake : Engine.make? settings t shared environment now = .ok e₀)
    (hreached : e₀.Reached e) (hcache : o.enableCache = false) (hdebug : o.debug = false)
    (hvalid : (validate x (.int o.maxDepth) e).1 = .ok node)
    (hpass : ∀ record ∈ records, ∃ b, e.passes o node record = .ok b) :
    ∃ all : List Value, ∀ (limit : Option Nat) (q : Query) (cs : List Call), limit ≠ some 0 →
      q.expression = x → Options.resolve e.defaults q.given q.overrides = .ok { o with limit } →
      (∀ c ∈ cs, c.AsksFor e.defaults x o.maxDepth) →
      (e.afterCalls cs).AllGive q o records (Scan.upTo limit all) := by
  obtain ⟨p, hp⟩ := exists_decides hpass
  have husable := hreached.usable hmake
  refine ⟨sorted o records p, fun limit q cs hlimit hx ho hcs => ?_⟩
  subst hx
  have hserves : Serving e q.expression (.int o.maxDepth) node e :=
    { husable.fits with expressions := serves_of_validate husable.room rfl hvalid }
  have hdecides : e.Decides { o with limit } node records p := hp
  have hall := hdecides.allGive (afterCalls_serves hcs hserves) ho hcache hdebug hlimit
  exact { hall with }

def oneAndTwo : List Value := [.ofPairs [("f", .int 1)], .ofPairs [("f", .int 2)]]

/-- A query for the ones, with a limit. -/
def onesUpTo (limit : Option Nat) : Query := ⟨fieldQuery (.int 1), .options { limit }, []⟩

/-- An engine without kept trees checks an expression that has a key. -/
theorem Unused.validate_eq (he : e.Unused) {depth : Value} (hdepth : e.depthOf depth = depth)
    {bytes : List UInt8} (hbytes : e.expressionBytes x depth = .ok bytes) :
    (validate x depth e).1 = e.check x depth := by
  have hget : e.expressions.get (e.environment.digest bytes) =
      (none, { e.expressions with misses := e.expressions.misses + 1 }) := by
    simp [Recent.get, Recent.find?, he.entries]
  rw [validate_run, hdepth, expressionKey_of_bytes hbytes]
  simp only [hget]
  rcases e.check x depth with f | node <;> rfl

theorem calls_agree_on_ones : ∃ e, IsStandard e ∧ ∃ all, e.AllGive (onesUpTo none) {} oneAndTwo all ∧
    (e.afterCalls [⟨.count, .stream .onDemand oneAndTwo, onesUpTo none⟩]).AllGive
      (onesUpTo (some 1)) {} oneAndTwo (all.take 1) := by
  obtain ⟨e, he⟩ := exists_isStandard
  have hm := make?_made he
  have hbytes : ∃ bytes, e.expressionBytes (fieldQuery (.int 1)) (.int 3) = .ok bytes := by
    rw [expressionBytes, hm.table]
    exact Outcome.exists_eq_ok (by cbv)
  obtain ⟨bytes, hbytes⟩ := hbytes
  have hunused : e.Unused := ⟨hm.expressions, hm.room⟩
  have hvalid : (validate (fieldQuery (.int 1)) (.int 3) e).1 = .ok (fieldNode (.int 1)) :=
    (hunused.validate_eq rfl hbytes).trans (check_fieldQuery he _)
  have hpass : ∀ record ∈ oneAndTwo, ∃ b, e.passes {} (fieldNode (.int 1)) record = .ok b := by
    obtain rfl := Except.ok.inj he
    intro record hr
    simp only [oneAndTwo, List.mem_cons, List.not_mem_nil, or_false] at hr
    rcases hr with rfl | rfl <;> exact ⟨_, rfl⟩
  obtain ⟨all, hall⟩ := calls_agree (o := {}) he .start rfl rfl hvalid hpass
  refine ⟨e, he, all, hall none (onesUpTo none) [] (by decide) rfl rfl (fun _ hc => (List.not_mem_nil hc).elim), ?_⟩
  refine hall (some 1) (onesUpTo (some 1)) _ (by decide) rfl rfl fun c hc => ?_
  obtain rfl := List.mem_singleton.1 hc
  refine ⟨rfl, fun o ho => ?_⟩
  obtain rfl := Except.ok.inj ho
  rfl

end Winnow.Engine
