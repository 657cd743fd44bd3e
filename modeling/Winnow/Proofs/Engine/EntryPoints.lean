import Winnow.Proofs.Chunks
import Winnow.Proofs.Engine.Serving
/-! # What the ways to ask come to

All of them prepare a call and scan its records. What is made of the prepared call is said without the
stores of the engine. -/

namespace Winnow.Engine
open Request

variable {base e : Engine} {J : Recent String Node → Prop} {o : Options} {node : Node} {d : Data} {q : Query}
  {records : List Value} {v : Value} {wanted : Option Nat}

/-! ## Preparation -/

/-- Does validation of a query's expression keep an engine set up? -/
def KeepsTrees (base : Engine) (J : Recent String Node → Prop) (q : Query) : Prop :=
  ∀ o, Options.resolve base.defaults q.given q.overrides = .ok o →
    Keeps (Fits base J) (validate q.expression (.int o.maxDepth))

theorem resolve_fits (hv : KeepsTrees base J q) : Keeps (Fits base J) (resolve q) :=
  options_setUp.bind (fun o ho => (hv o ho.symm).bind fun _ => ensures_pure trivial) fun _ _ => trivial

theorem prepare_fits (hv : KeepsTrees base J q) : Keeps (Fits base J) (prepare d q) :=
  (resolve_fits hv).bind fun _ => (lift_ensures _).keeps.bind fun _ => ensures_pure trivial

/-- Options and tree of a call are those that the engine has for it. -/
theorem resolve_served (ho : Options.resolve base.defaults q.given q.overrides = .ok o) :
    Ensures (Serving base q.expression (.int o.maxDepth) node) (resolve q) (· = .ok (o, node)) := by
  refine options_setUp.bind (fun o' ho' => ?_) fun f hf => ?_
  · obtain rfl := Except.ok.inj (ho'.trans ho)
    refine (validate_serves rfl).bind (fun node' hnode => ensures_pure ?_) fun f hf => nomatch hf
    rw [Except.ok.inj hnode]
  · rw [ho] at hf
    cases hf

theorem prepare_served (ho : Options.resolve base.defaults q.given q.overrides = .ok o)
    (hd : d.records = .ok records) :
    Ensures (Serving base q.expression (.int o.maxDepth) node) (prepare d q)
      (· = .ok (o, node, records)) := by
  refine (resolve_served ho).bind (fun p hp => ?_) fun f hf => nomatch hf
  obtain rfl := Except.ok.inj hp
  refine (lift_ensures d.records).bind (fun records' hr => ensures_pure ?_) fun f hf => ?_
  · rw [Except.ok.inj (hr.trans hd)]
  · rw [hd] at hf
    cases hf

/-! ## Prepared calls -/

variable {P : Outcome (Options × Node × List Value) → Prop}

theorem filter_fits (hv : KeepsTrees base J q) : Keeps (Fits base J) (filter d q) := by
  refine (prepare_fits hv).bind fun ⟨o, node, records⟩ => ?_
  show Keeps _ (if o.debug then _ else _)
  split
  · refine runTraced_fits.bind fun run => ?_
    refine (lift_ensures run.text).keeps.bind fun text => ?_
    exact (note_setUp _).keeps.bind fun _ => ensures_pure trivial
  · exact measured_setUp (cached_fits evaluate_setUp.keeps)

/-- Without a trace and kept results, filtering is evaluation. -/
theorem filter_comesTo (hp : Ensures (Fits base J) (prepare d q) P)
    (hplain : ∀ p, P (.ok p) → p.1.debug = false ∧ p.1.enableCache = false) :
    Ensures (Fits base J) (filter d q) fun r => ∃ p, P p ∧ r = p >>= fun p => base.answer p.1 p.2.1 p.2.2 := by
  refine hp.comesTo fun ⟨o, node, records⟩ ha => ?_
  obtain ⟨hdebug, hcache⟩ : o.debug = false ∧ o.enableCache = false := hplain _ ha
  simp only [hdebug, cached_of_uncached hcache, Bool.false_eq_true, if_false]
  exact measured_setUp evaluate_setUp

/-- The first records that match, in the order that is asked for. -/
def firstFound (e : Engine) (o : Options) (node : Node) (n : Nat) (records : List Value) :
    Outcome (List Value) :=
  if o.orderBy.isEmpty then e.found o node (least (some n) o.limit) records
  else (e.answer o node records).map (·.take n)

theorem first_comesTo (hp : Ensures (Fits base J) (prepare d q) P) :
    Ensures (Fits base J) (first d q v) fun r => ∀ n, readCount "n" v = .ok n →
      ∃ p, P p ∧ r = p >>= fun p => base.firstFound p.1 p.2.1 n p.2.2 := by
  refine Ensures.afterLift fun n _ => hp.comesTo fun ⟨o, node, records⟩ _ => measured_setUp ?_
  simp only [firstFound]
  split
  · exact scan_setUp _
  · exact evaluate_setUp.map _

theorem anyMatch_comesTo (hp : Ensures (Fits base J) (prepare d q) P) :
    Ensures (Fits base J) (anyMatch d q) fun r => ∃ p, P p ∧
      r = p >>= fun p => (base.found p.1 p.2.1 (some 1) p.2.2).map (!·.isEmpty) :=
  hp.comesTo fun _ _ => measured_setUp ((scan_setUp _).map _)

theorem count_comesTo (hp : Ensures (Fits base J) (prepare d q) P) :
    Ensures (Fits base J) (count d q) fun r => ∃ p, P p ∧
      r = p >>= fun p => (base.found p.1 p.2.1 p.1.limit p.2.2).map List.length :=
  hp.comesTo fun _ _ => measured_setUp ((scan_setUp _).map _)

/-! ## Cursors -/

theorem cursor_next_fits (c : Cursor) (hs : Fits base J e) : Fits base J (c.next wanted records e).2.2 := by
  unfold Cursor.next
  split
  · exact hs
  · exact (scan_setUp _ e hs).1

/-- The records that match as a cursor hands them out, which has no order. -/
def lazilyFound (e : Engine) (o : Options) (node : Node) (wanted : Option Nat) (records : List Value) :
    Outcome (List Value) :=
  rejectOrder o >>= fun _ => e.found o node (least wanted o.limit) records

theorem unordered_fits : Ensures (Fits base J)
    ((liftM (rejectOrder o) : Request Unit) >>= fun _ => scan o node (least wanted o.limit) records)
    (· = base.lazilyFound o node wanted records) := by
  unfold lazilyFound
  rcases rejectOrder o with f | _
  · exact ensures_done rfl
  · exact scan_setUp _

/-- Reading with a cursor to its end is a scan, unless there is an order. -/
theorem filterLazily_eq (d : Data) (q : Query) (wanted : Option Nat) : filterLazily d q wanted =
    prepare d q >>= fun p => (liftM (rejectOrder p.1) : Request Unit) >>= fun _ =>
      scan p.1 p.2.1 (least wanted p.1.limit) p.2.2 := by
  rw [filterLazily, openCursor, bind_assoc]
  congr 1
  funext p
  rw [bind_assoc]
  rfl

theorem filterArriving_eq (d : Data) (q : Query) : filterArriving d q =
    resolve q >>= fun p => (liftM d.arriving : Request (List Value)) >>= fun records =>
      (liftM (rejectOrder p.1) : Request Unit) >>= fun _ => scan p.1 p.2 (least none p.1.limit) records := by
  rw [filterArriving, openArriving, bind_assoc]
  congr 1
  funext p
  rw [bind_assoc]
  congr 1
  funext records
  rw [bind_assoc]
  rfl

theorem lazily_comesTo (hp : Ensures (Fits base J) (prepare d q) P) :
    Ensures (Fits base J) (filterLazily d q wanted) fun r => ∃ p, P p ∧
      r = p >>= fun p => base.lazilyFound p.1 p.2.1 wanted p.2.2 := by
  rw [filterLazily_eq]
  exact hp.comesTo fun _ _ => unordered_fits

theorem arriving_comesTo {R : Outcome (Options × Node) → Prop} (hr : Ensures (Fits base J) (resolve q) R) :
    Ensures (Fits base J) (filterArriving d q) fun r => ∃ p, R p ∧
      r = p >>= fun p => d.arriving >>= fun records => base.lazilyFound p.1 p.2 none records := by
  rw [filterArriving_eq]
  refine hr.comesTo fun p _ => ?_
  rcases d.arriving with f | records
  · exact ensures_done rfl
  · exact unordered_fits

/-! ## Chunks -/

variable {Q : Outcome (List Value) → Prop}

theorem chunks_comesTo (hf : Ensures (Fits base J) (filter d q) Q) :
    Ensures (Fits base J) (filterChunks d q v) fun r => ∀ n, readCount "chunk_size" v = .ok n →
      ∃ x, Q x ∧ r = x >>= fun found => Chunks.split n found :=
  Ensures.afterLift fun _ _ => hf.comesTo fun _ _ => lift_ensures _

theorem chunksLazily_comesTo (hf : Ensures (Fits base J) (filterLazily d q none) Q) :
    Ensures (Fits base J) (filterChunksLazily d q v) fun r => ∀ n, readCount "chunk_size" v = .ok n →
      ∃ x, Q x ∧ r = x >>= fun found => Chunks.split n found :=
  Ensures.afterLift fun _ _ => hf.comesTo fun _ _ => lift_ensures _

/-! ## Calls one after the other -/

/-- The ways to ask for the records that match. -/
inductive EntryPoint
  | filter
  | chunks (size : Value)
  | first (n : Value)
  | anyMatch
  | count
  | lazily (wanted : Option Nat)
  | chunksLazily (size : Value)
  | arriving

/-- One of these ways, with data and a query. -/
structure Call where
  point : EntryPoint
  data : Data
  query : Query

/-- The engine that a call leaves. -/
def Call.next (c : Call) (e : Engine) : Engine :=
  match c.point with
  | .filter => (Engine.filter c.data c.query e).2
  | .chunks size => (filterChunks c.data c.query size e).2
  | .first n => (Engine.first c.data c.query n e).2
  | .anyMatch => (Engine.anyMatch c.data c.query e).2
  | .count => (Engine.count c.data c.query e).2
  | .lazily wanted => (filterLazily c.data c.query wanted e).2
  | .chunksLazily size => (filterChunksLazily c.data c.query size e).2
  | .arriving => (filterArriving c.data c.query e).2

/-- A call keeps an engine set up if the validation of its expression does. -/
theorem Call.next_fits (c : Call) (hv : KeepsTrees base J c.query) (hs : Fits base J e) :
    Fits base J (c.next e) := by
  have hp : Keeps (Fits base J) (prepare c.data c.query) := prepare_fits hv
  unfold Call.next
  cases c.point with
  | filter => exact (filter_fits hv e hs).1
  | chunks size => exact (chunks_comesTo (filter_fits hv) e hs).1
  | first n => exact (first_comesTo hp e hs).1
  | anyMatch => exact (anyMatch_comesTo hp e hs).1
  | count => exact (count_comesTo hp e hs).1
  | lazily wanted => exact (lazily_comesTo hp e hs).1
  | chunksLazily size => exact (chunksLazily_comesTo (lazily_comesTo hp) e hs).1
  | arriving => exact (arriving_comesTo (resolve_fits hv) e hs).1

end Winnow.Engine
