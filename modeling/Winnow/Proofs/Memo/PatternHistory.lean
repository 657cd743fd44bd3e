import Winnow.Proofs.Memo.History
import Winnow.Proofs.Memo.Patterns
/-! # What a store of patterns was asked

A store that was empty gives to every call what an empty store gives: the same compiled form, the same reason
or the same failure, whatever it was asked before. Two sound stores with one limit on the length reply alike,
and each call leaves a sound store sound, so a run of calls does. What is kept is safe and is what the
compiler makes of its source and flags. -/

namespace Winnow

theorem compileSource_eq_ok {limit flags : Int} {source : String} {p : Pattern.Program} :
    compileSource limit source flags = .ok (.ok p) ↔
      hazard? source limit = none ∧ Pattern.compile source flags = .ok p := by
  unfold compileSource
  split
  · next h hhazard => simp [hhazard]
  · next hhazard =>
    rcases Pattern.compile source flags with (_ | _ | _) | p' <;> simp [hhazard]

namespace PatternStore

/-- One thing that a store of patterns is asked. -/
inductive Call
  | tryCompile (v : Value) (flags : Int)
  | compile (v : Value) (flags : Int)
  | clear

/-- What a call gives: a compiled form, the reason why there is none, or nothing. -/
inductive Reply
  | program (p : Pattern.Program)
  | reason (text : String)
  | nothing

/-- What a call gives, and the store that it leaves. -/
def Call.run (s : PatternStore) : Call → Outcome Reply × PatternStore
  | tryCompile v flags =>
    match s.compileValue v flags with
    | (r, s) => (r.map fun
        | .ok p => .program p
        | .error why => .reason why.message, s)
  | compile v flags =>
    match s.require v flags with
    | (r, s) => (r.map .program, s)
  | clear => (.ok .nothing, s.clear)

/-- What calls give, one after the other, and the store that they leave. -/
def run (s : PatternStore) : List Call → List (Outcome Reply) × PatternStore
  | [] => ([], s)
  | c :: cs => ((c.run s).1 :: ((c.run s).2.run cs).1, ((c.run s).2.run cs).2)

variable {s s' : PatternStore}

/-! ## One call -/

/-- Do two stores answer alike, as each keeps only what the compiler makes within the same limit? -/
structure Alike (s s' : PatternStore) : Prop where
  left : s.Sound
  right : s'.Sound
  maxLength : s.maxLength = s'.maxLength

/-- A value has the same compiled form, reason or failure in stores that are alike, and they stay alike when
the first one was asked. -/
theorem Alike.compileValue (h : Alike s s') (v : Value) (flags : Int) :
    (s.compileValue v flags).1 = (s'.compileValue v flags).1 ∧ Alike (s.compileValue v flags).2 s' := by
  unfold PatternStore.compileValue
  split
  · -- a compiled pattern is not looked up
    split <;> exact ⟨rfl, h⟩
  · next source =>
    obtain ⟨hout, hsound, hlen⟩ := h.left.compile source flags
    have hout' := (h.right.compile source flags).1
    refine ⟨congrArg (Except.map (Except.mapError Refused.source)) ?_, hsound, h.right, hlen.trans h.maxLength⟩
    rw [hout, hout', h.maxLength]
  · exact ⟨rfl, h⟩

theorem require_fst (s : PatternStore) (v : Value) (flags : Int) : (s.require v flags).1 =
    (s.compileValue v flags).1.bind (Except.mapError fun why => .raised .badValue why.message) := by
  unfold require
  rcases s.compileValue v flags with ⟨_ | _ | p, s'⟩ <;> rfl

theorem require_snd (s : PatternStore) (v : Value) (flags : Int) :
    (s.require v flags).2 = (s.compileValue v flags).2 := by
  unfold require
  rcases s.compileValue v flags with ⟨_ | _ | p, s'⟩ <;> rfl

theorem Alike.call (h : Alike s s') (c : Call) : (c.run s).1 = (c.run s').1 ∧ Alike (c.run s).2 s' := by
  cases c with
  | tryCompile v flags =>
    obtain ⟨hout, hnext⟩ := h.compileValue v flags
    exact ⟨congrArg (Except.map _) hout, hnext⟩
  | compile v flags =>
    obtain ⟨hout, hnext⟩ := h.compileValue v flags
    refine ⟨?_, ?_⟩
    · show (s.require v flags).1.map _ = (s'.require v flags).1.map _
      rw [require_fst, require_fst, hout]
    · show Alike (s.require v flags).2 s'
      rwa [require_snd]
  | clear => exact ⟨rfl, clear_sound, h.right, h.maxLength⟩

/-! ## Runs -/

theorem Alike.run (h : Alike s s') (cs : List Call) :
    (s.run cs).1 = cs.map (fun c => (c.run s').1) ∧ Alike (s.run cs).2 s' := by
  induction cs generalizing s with
  | nil => exact ⟨rfl, h⟩
  | cons c cs ih =>
    obtain ⟨hreply, hnext⟩ := h.call c
    obtain ⟨hreplies, hafter⟩ := ih hnext
    refine ⟨?_, hafter⟩
    rw [PatternStore.run, List.map_cons, hreply, hreplies]

/-- A store that was empty replies to every call of a run as an empty one does, of whatever size, and what
it keeps is safe and compiled from its source and flags. -/
theorem replies_as_fresh {n m : Int} (hn : 1 ≤ n) (hm : 1 ≤ m) (maxLength : Int) : ∃ s fresh,
    make? (.int n) maxLength = .ok s ∧ make? (.int m) maxLength = .ok fresh ∧ ∀ cs : List Call,
      (s.run cs).1 = cs.map (fun c => (c.run fresh).1) ∧
      ∀ e ∈ (s.run cs).2.programs.entries,
        hazard? e.1.1 maxLength = none ∧ Pattern.compile e.1.1 e.1.2 = .ok e.2 := by
  have hmake {n : Int} (hn : 1 ≤ n) : ∃ s, make? (.int n) maxLength = .ok s ∧ s.Sound ∧ s.maxLength = maxLength := by
    have hs : make? (.int n) maxLength = .ok ⟨{ maxSize := n.toNat, bound := .int n }, maxLength⟩ := by
      rw [make?, Recent.make?_int hn, Outcome.map_ok]
    exact ⟨_, hs, make?_sound hs⟩
  obtain ⟨s, hs, hsound, hlen⟩ := hmake hn
  obtain ⟨fresh, hfresh, hsound', hlen'⟩ := hmake hm
  refine ⟨s, fresh, hs, hfresh, fun cs => ?_⟩
  obtain ⟨hreplies, hafter⟩ := Alike.run ⟨hsound, hsound', hlen.trans hlen'.symm⟩ cs
  refine ⟨hreplies, fun e he => compileSource_eq_ok.1 ?_⟩
  rw [← hlen', ← hafter.maxLength]
  exact hafter.left e he

/-- In a store with one place: a pattern, one that takes its place, one that is too long, a number, and the
first one again with another flag. -/
def fiveCalls : List Call :=
  [.tryCompile (.text "a") 0, .compile (.text "b") 2, .compile (.text "abcdef") 0, .tryCompile (.int 42) 0,
    .tryCompile (.text "a") 2]

theorem replies_as_fresh_five_calls : (1 : Int) ≤ 1 ∧ (1 : Int) ≤ 500 ∧ ∃ s fresh,
    make? (.int 1) 5 = .ok s ∧ make? (.int 500) 5 = .ok fresh ∧
    (s.run fiveCalls).1 = fiveCalls.map (fun c => (c.run fresh).1) ∧
    (Call.run fresh (.compile (.text "abcdef") 0)).1 =
      .error (.raised .badValue "pattern longer than 5 characters") := by
  obtain ⟨s, fresh, hs, hfresh, hall⟩ := replies_as_fresh (n := 1) (m := 500) (by decide) (by decide) 5
  refine ⟨by decide, by decide, s, fresh, hs, hfresh, (hall fiveCalls).1, ?_⟩
  obtain rfl := Except.ok.inj (hfresh.symm.trans rfl)
  rfl

end PatternStore
end Winnow
