import Winnow.Proofs.Engine.Calls
/-! # Histories of runs

The tables of a run follow from its registrations alone, and no two of them share a version. So the
history of a run that starts with empty stores keeps its engine sound to the end, by induction on its
steps. -/

namespace Winnow

namespace Table

variable {t u : Table}

theorem register_version {o : OperatorInfo} {overwrite : Bool} (h : t.register o overwrite = .ok u) :
    u.version = t.version + 1 := by
  unfold register at h
  split at h
  · cases h
  split at h
  · cases h
  split at h
  · cases h
  · obtain rfl := Except.ok.inj h; rfl

theorem unregister_version {name : String} (h : t.unregister name = .ok u) :
    u.version = t.version + 1 := by
  unfold unregister at h
  split at h
  · obtain rfl := Except.ok.inj h; rfl
  · cases h

end Table

namespace Engine

variable {h : History} {t u : Table} {e : Engine} {ss : List Step}

/-- The table that a step leaves. -/
def Step.change : Step → Table → Table
  | .register o overwrite, t => (t.register o overwrite).toOption.getD t
  | .unregister name, t => (t.unregister name).toOption.getD t
  | _, t => t

/-- The tables of a run, the last one included. -/
def tables : List Step → Table → List Table
  | [], t => [t]
  | s :: ss, t => t :: tables ss (s.change t)

/-- The table that a run leaves. -/
def lastTable : List Step → Table → Table
  | [], t => t
  | s :: ss, t => lastTable ss (s.change t)

theorem Step.change_version (s : Step) (t : Table) : s.change t = t ∨ t.version < (s.change t).version := by
  cases s with
  | register o overwrite =>
    rcases hr : t.register o overwrite with f | u
    · exact .inl (by simp [change, hr, Except.toOption])
    · exact .inr (by simp [change, hr, Except.toOption, Table.register_version hr])
  | unregister name =>
    rcases hr : t.unregister name with f | u
    · exact .inl (by simp [change, hr, Except.toOption])
    · exact .inr (by simp [change, hr, Except.toOption, Table.unregister_version hr])
  | _ => exact .inl rfl

theorem Step.change_reaches (s : Step) (ht : t.Reaches u) : t.Reaches (s.change u) := by
  cases s with
  | register o overwrite =>
    rcases hr : u.register o overwrite with f | v
    · simpa [change, hr, Except.toOption] using ht
    · simpa [change, hr, Except.toOption] using ht.register o overwrite hr
  | unregister name =>
    rcases hr : u.unregister name with f | v
    · simpa [change, hr, Except.toOption] using ht
    · simpa [change, hr, Except.toOption] using ht.unregister name hr
  | _ => exact ht

theorem lastTable_reaches (ss : List Step) (ht : t.Reaches u) : t.Reaches (lastTable ss u) := by
  induction ss generalizing u with
  | nil => exact ht
  | cons s ss ih => exact ih (s.change_reaches ht)

theorem tables_eq_scanl : tables ss t = ss.scanl (fun t s => s.change t) t := by
  induction ss generalizing t with
  | nil => rw [tables, List.scanl_nil]
  | cons s ss ih => rw [tables, ih, List.scanl_cons]

/-- Versions tell the tables of a run apart. -/
theorem tables_unique {v : Table} (hu : u ∈ tables ss t) (hv : v ∈ tables ss t)
    (huv : u.version = v.version) : u = v := by
  rw [tables_eq_scanl] at hu hv
  exact eq_of_mem_scanl (fun t (s : Step) => s.change_version t) hu hv huv

theorem mem_tables_last (ss : List Step) (t : Table) : lastTable ss t ∈ tables ss t := by
  induction ss generalizing t with
  | nil => exact List.mem_singleton.2 rfl
  | cons s ss ih => exact List.mem_cons_of_mem _ (ih _)

theorem tables_append_left {ss' : List Step} (hu : u ∈ tables ss t) : u ∈ tables (ss ++ ss') t := by
  induction ss generalizing t with
  | nil =>
    obtain rfl := List.mem_singleton.1 hu
    cases ss' <;> exact List.mem_cons_self ..
  | cons s ss ih =>
    rcases List.mem_cons.1 hu with rfl | hu
    · exact List.mem_cons_self ..
    · exact List.mem_cons_of_mem _ (ih hu)

/-! ## Sound runs -/

theorem onTable_next (f : Table → Outcome Table) (hs : Sound h t e) :
    Sound h ((f t).toOption.getD t) (Request.onTable (fun t => (f t).map fun t => ((), t)) e).2 := by
  unfold Request.onTable
  rw [hs.table]
  rcases hf : f t with _ | u <;> simp only [hf, Outcome.map_error, Outcome.map_ok]
  · exact hs
  · exact { hs with table := rfl }

/-- The history of a run from an engine on. -/
def historyOf (e : Engine) (ss : List Step) (keepable : Fingerprint → ResultKey → List Value → Prop) :
    History :=
  ⟨e, (· ∈ e.messages ss), fun x depth => (x, depth) ∈ e.requests ss, (· ∈ tables ss e.table), keepable⟩

theorem requests_append (ss ss' : List Step) : e.requests (ss ++ ss') = e.requests ss ++ e.requests ss' :=
  List.filterMap_append

theorem messages_append (ss ss' : List Step) :
    e.messages (ss ++ ss') = e.messages ss ++ (e.after ss).messages ss' := by
  induction ss generalizing e with
  | nil => rfl
  | cons s ss ih => simp only [List.cons_append, messages, after, ih, List.append_assoc]

theorem Sound.step_eqs (hs : Sound h t e) (s : Step) :
    s.request? e = s.request? h.base ∧ s.messages e = s.messages (h.at' t) := by
  constructor <;> cases s <;>
    simp only [Step.request?, Step.messages, depthOf, hs.defaults, hs.expressionBytes_eq, resultBytes,
      withTable, hs.table]

theorem Sound.next (hs : Sound h t e) (hcur : h.Current t) (hP : ∀ f, Recent.Respects (h.keepable f))
    {s : Step} (hl : h.Lists t s) (hkeeps : ∀ d q, s = .filter d q → h.Keeps t d q) :
    Sound h (s.change t) (s.next e) := by
  cases s with
  | validate x maxDepth =>
    refine (validate_ensures hcur _ _ (hl.requested _ rfl)
      fun bytes hb => hl.digested bytes ?_).keeps e hs |>.1
    exact Outcome.mem_toList.2 hb
  | filter d q => exact (filter_ensures hcur hl.asks (hkeeps d q rfl) hP e hs).1
  | filterTraced d q =>
    have hl : h.Lists t (.filter d q) := ⟨hl.requested, hl.digested⟩
    exact (filterTraced_keeps hcur hl.asks hP e hs).1
  | clear => exact (clear_keeps e hs).1
  | register o overwrite => exact onTable_next (·.register o overwrite) hs
  | unregister name => exact onTable_next (·.unregister name) hs

/-- A run of which the history lists all steps leaves a sound engine. -/
theorem Sound.after (hs : Sound h t e) (hcur : ∀ u ∈ tables ss t, h.Current u)
    (hP : ∀ f, Recent.Respects (h.keepable f)) (hreq : ∀ r ∈ h.base.requests ss, h.requested r.1 r.2)
    (hmsg : ∀ bytes ∈ e.messages ss, h.digested bytes)
    (hkeeps : ∀ u d q, Step.filter d q ∈ ss → h.seen u → h.Lists u (.filter d q) → h.Keeps u d q) :
    Sound h (lastTable ss t) (e.after ss) := by
  induction ss generalizing t e with
  | nil => exact hs
  | cons s ss ih =>
    have hl : h.Lists t s := {
      requested := fun r hr => hreq r (List.mem_filterMap.2 ⟨s, List.mem_cons_self .., hr⟩)
      digested := fun bytes hb =>
        hmsg bytes (List.mem_append_left _ (by rwa [(hs.step_eqs s).2])) }
    have hcurrent := hcur t (List.mem_cons_self ..)
    have hnext := hs.next hcurrent hP hl fun d q hd =>
      hkeeps t d q (hd ▸ List.mem_cons_self ..) hcurrent.seen (hd ▸ hl)
    refine ih hnext (fun u hu => hcur u (List.mem_cons_of_mem _ hu)) (fun r hr => hreq r ?_)
      (fun bytes hb => hmsg bytes (List.mem_append_right _ hb)) fun u d q hd =>
        hkeeps u d q (List.mem_cons_of_mem _ hd)
    obtain ⟨s', hs', hr⟩ := List.mem_filterMap.1 hr
    exact List.mem_filterMap.2 ⟨s', List.mem_cons_of_mem _ hs', hr⟩

/-- In a run without colliding keys every table is current. -/
theorem historyOf_current (keepable : Fingerprint → ResultKey → List Value → Prop)
    (hfree : e.CollisionFree ss) (hu : u ∈ tables ss e.table) : (historyOf e ss keepable).Current u :=
  ⟨hu, fun _ _ => tables_unique, fun a b ha hb => hfree a ha b hb⟩

/-- A run that begins with a sound engine leaves a sound one, whatever comes after it. -/
theorem Sound.before {ss' : List Step} {keepable : Fingerprint → ResultKey → List Value → Prop}
    (hs : Sound (historyOf e (ss ++ ss') keepable) e.table e) (hfree : e.CollisionFree (ss ++ ss'))
    (hP : ∀ f, Recent.Respects (keepable f))
    (hkeeps : ∀ u d q, Step.filter d q ∈ ss → u ∈ tables (ss ++ ss') e.table →
      (historyOf e (ss ++ ss') keepable).Lists u (.filter d q) →
      (historyOf e (ss ++ ss') keepable).Keeps u d q) :
    Sound (historyOf e (ss ++ ss') keepable) (lastTable ss e.table) (e.after ss) := by
  refine hs.after (fun u hu => historyOf_current _ hfree (tables_append_left hu)) hP (fun r hr => ?_)
    (fun bytes hb => ?_) hkeeps
  · show r ∈ e.requests (ss ++ ss')
    rw [requests_append]
    exact List.mem_append_left _ hr
  · show bytes ∈ e.messages (ss ++ ss')
    rw [messages_append]
    exact List.mem_append_left _ hb

/-- The history of a run lists the step that comes after a part of it. -/
theorem Sound.lists_next {s : Step} {ss' : List Step} {keepable : Fingerprint → ResultKey → List Value → Prop}
    (hs : Sound (historyOf e (ss ++ s :: ss') keepable) t (e.after ss)) :
    (historyOf e (ss ++ s :: ss') keepable).Lists t s where
  requested r hr := by
    show (r.1, r.2) ∈ e.requests (ss ++ s :: ss')
    rw [requests_append]
    exact List.mem_append_right _ (List.mem_filterMap.2 ⟨s, List.mem_cons_self .., hr⟩)
  digested bytes hb := by
    show bytes ∈ e.messages (ss ++ s :: ss')
    rw [messages_append, messages]
    exact List.mem_append_right _ (List.mem_append_left _ (by rwa [(hs.step_eqs s).2]))

/-- What a new engine is made of. -/
structure Made (settings : Settings) (t : Table) (shared : Bool) (environment : Environment) (now : Moment)
    (e : Engine) : Prop where
  table : e.table = t
  sharesTable : e.sharesTable = shared
  environment : e.environment = environment
  now : e.now = now
  defaults : settings.defaultOptions = .ok e.defaults
  maxLength : Settings.length (Settings.get settings.validationConfig "max_regex_length") =
    .ok e.patterns.maxLength
  maxResults : e.results.maxResults = Settings.get settings.cacheConfig "max_entries_per_collection"
  patterns : e.patterns.Sound
  expressions : e.expressions.entries = []
  room : 1 ≤ e.expressions.maxSize
  results : ∀ P, e.results.Holds P

variable {settings : Settings} {shared : Bool} {environment : Environment} {now : Moment}

theorem make?_made (hmake : Engine.make? settings t shared environment now = .ok e) :
    Made settings t shared environment now e := by
  obtain ⟨defaults, hdefaults, hmake⟩ := Outcome.bind_eq_ok.1 hmake
  obtain ⟨results, hresults, hmake⟩ := Outcome.bind_eq_ok.1 hmake
  obtain ⟨maxLength, hmaxLength, hmake⟩ := Outcome.bind_eq_ok.1 hmake
  obtain ⟨patterns, hpatterns, hmake⟩ := Outcome.bind_eq_ok.1 hmake
  obtain ⟨expressions, hexpressions, hmake⟩ := Outcome.bind_eq_ok.1 hmake
  obtain ⟨monitor, -, hmake⟩ := Outcome.bind_eq_ok.1 hmake
  obtain rfl := Except.ok.inj hmake
  obtain ⟨hsound, hlen⟩ := PatternStore.make?_sound hpatterns
  exact {
    table := rfl, sharesTable := rfl, environment := rfl, now := rfl
    defaults := hdefaults
    maxLength := hmaxLength.trans (congrArg _ hlen.symm)
    maxResults := (ResultStore.make?_holds (P := fun _ _ _ => True) hresults).2
    patterns := hsound
    expressions := Recent.make?_entries hexpressions
    room := Recent.make?_maxSize hexpressions
    results := fun P => (ResultStore.make?_holds hresults).1 }

/-- A new engine is sound for every history that begins with it. -/
theorem Made.sound (hm : Made settings t shared environment now h.base) : Sound h t h.base where
  table := hm.table
  sharesTable := rfl
  environment := rfl
  now := rfl
  defaults := rfl
  maxLength := rfl
  maxResults := rfl
  patterns := hm.patterns
  expressions := .of_nil hm.expressions
  results := hm.results _

end Engine
end Winnow
