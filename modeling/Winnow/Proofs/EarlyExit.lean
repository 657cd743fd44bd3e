import Mathlib.Data.Seq.Basic
import Winnow.Proofs.Scan
/-! # Where a scan stops

A source of items may end or go on for ever. A scan for a number of items that pass a test looks at the items up
to the last one that is wanted, or at all of them where there are fewer, and at none behind: what it comes to is
the same on every beginning of the source that reaches so far. A test that fails ends the scan, so it fails just
when the test fails on one of these items. -/

namespace Winnow

variable {σ α : Type} {passes : α → Outcome Bool} {k : Nat} {seen before rest xs ys : List α} {x : α} {f : Failure}

def isHit : Outcome Bool → Bool
  | .ok b => b
  | .error _ => false

/-- The items that pass a test, which may fail on others. -/
def hits (passes : α → Outcome Bool) (xs : List α) : List α := xs.filter fun x => isHit (passes x)

/-- Does the test come to a result on all of them? -/
def Decided (passes : α → Outcome Bool) (xs : List α) : Prop := ∀ x ∈ xs, ∃ b, passes x = .ok b

theorem hits_append (xs ys : List α) : hits passes (xs ++ ys) = hits passes xs ++ hits passes ys :=
  List.filter_append ..

theorem hits_of_ok (h : passes x = .ok true) : hits passes [x] = [x] := by simp [hits, h, isHit]

theorem Decided.left (h : Decided passes (xs ++ ys)) : Decided passes xs :=
  fun x hx => h x (List.mem_append_left _ hx)

/-- Items on which the test fails have a first one. -/
theorem exists_first_failure (h : ¬Decided passes xs) :
    ∃ before x rest f, xs = before ++ x :: rest ∧ Decided passes before ∧ passes x = .error f := by
  induction xs with
  | nil => exact absurd (fun _ hx => (List.not_mem_nil hx).elim) h
  | cons y ys ih =>
    rcases hy : passes y with f | b
    · exact ⟨[], y, ys, f, rfl, nofun, hy⟩
    · obtain ⟨before, x, rest, f, rfl, hbefore, hx⟩ := ih fun hys => h (List.forall_mem_cons.2 ⟨⟨b, hy⟩, hys⟩)
      exact ⟨y :: before, x, rest, f, rfl, List.forall_mem_cons.2 ⟨⟨b, hy⟩, hbefore⟩, hx⟩

/-- The items of a source up to the `k`-th that passes, or all of them where there are fewer. -/
inductive UpTo (passes : α → Outcome Bool) (k : Nat) (source : Stream'.Seq α) : List α → Prop
  | found {before : List α} {x : α} (hsource : source.take (before.length + 1) = before ++ [x])
    (hx : passes x = .ok true) (hk : (hits passes before).length + 1 = k) : UpTo passes k source (before ++ [x])
  | ended {seen : List α} (hsource : source = .ofList seen) (hfew : (hits passes seen).length < k) :
    UpTo passes k source seen

theorem take_ofList (xs : List α) (n : Nat) : (Stream'.Seq.ofList xs).take n = xs.take n := by
  refine List.ext_getElem? fun i => ?_
  rw [Stream'.Seq.getElem?_take, Stream'.Seq.ofList_get?, List.getElem?_take]

theorem take_take {source : Stream'.Seq α} {m n : Nat} (h : m ≤ n) : (source.take n).take m = source.take m := by
  refine List.ext_getElem? fun i => ?_
  rw [List.getElem?_take, Stream'.Seq.getElem?_take, Stream'.Seq.getElem?_take]
  by_cases hi : i < m
  · rw [if_pos hi, if_pos hi, if_pos (by omega)]
  · rw [if_neg hi, if_neg hi]

theorem exists_found (hk : 1 ≤ k) (h : k ≤ (hits passes xs).length) : ∃ before x rest,
    xs = before ++ x :: rest ∧ passes x = .ok true ∧ (hits passes before).length + 1 = k := by
  induction xs generalizing k with
  | nil =>
    rw [hits, List.filter_nil, List.length_nil] at h
    omega
  | cons y ys ih =>
    by_cases hy : isHit (passes y) = true
    · have hhit : passes y = .ok true := by
        rcases hp : passes y with f | _ | _ <;> simp_all [isHit]
      have hhits (zs : List α) : hits passes (y :: zs) = y :: hits passes zs := List.filter_cons_of_pos hy
      by_cases hone : k = 1
      · exact ⟨[], y, ys, rfl, hhit, by simp [hits, hone]⟩
      rw [hhits, List.length_cons] at h
      obtain ⟨before, x, rest, rfl, hx, hcount⟩ := ih (k := k - 1) (by omega) (by omega)
      refine ⟨y :: before, x, rest, rfl, hx, ?_⟩
      rw [hhits, List.length_cons]
      omega
    · have hhits (zs : List α) : hits passes (y :: zs) = hits passes zs := List.filter_cons_of_neg hy
      rw [hhits] at h
      obtain ⟨before, x, rest, rfl, hx, hcount⟩ := ih hk h
      exact ⟨y :: before, x, rest, rfl, hx, by rwa [hhits]⟩

/-- A source has the items that are wanted, or ends, or goes on for ever with fewer. -/
theorem exists_upTo (passes : α → Outcome Bool) (hk : 1 ≤ k) (source : Stream'.Seq α) :
    (∃ seen, UpTo passes k source seen) ∨
      ∀ n, (source.take n).length = n ∧ (hits passes (source.take n)).length < k := by
  by_cases hfew : ∀ n, (hits passes (source.take n)).length < k
  · by_cases hends : source.Terminates
    · have hsource := Stream'.Seq.ofList_toList source hends
      refine .inl ⟨_, .ended hsource.symm ?_⟩
      exact hfew (source.length hends)
    · exact .inr fun n => ⟨Stream'.Seq.length_take_of_le_length fun h => absurd h hends, hfew n⟩
  · simp only [not_forall, Nat.not_lt] at hfew
    obtain ⟨n, hn⟩ := hfew
    obtain ⟨before, x, rest, htake, hx, hcount⟩ := exists_found hk hn
    refine .inl ⟨before ++ [x], .found ?_ hx hcount⟩
    have hlength := Stream'.Seq.length_take_le (s := source) (n := n)
    rw [htake, List.length_append, List.length_cons] at hlength
    rw [← take_take (show before.length + 1 ≤ n by omega), htake, List.take_append, List.take_of_length_le (by omega)]
    simp

namespace Scan

variable {test : σ → α → Outcome Bool × σ} {J : σ → Prop} {s : σ}

/-- The state after tests of the items, one after the other. -/
def stateAfter (test : σ → α → Outcome Bool × σ) (s : σ) (xs : List α) : σ := xs.foldl (fun s x => (test s x).2) s

theorem stateAfter_append (xs ys : List α) :
    stateAfter test s (xs ++ ys) = stateAfter test (stateAfter test s xs) ys := List.foldl_append ..

theorem run_cons_hit {s' : σ} (h : test s x = (.ok true, s')) (rest : List α) :
    run test s (some 1) (x :: rest) = ⟨[x], 1, none, s'⟩ := by
  rw [run, h]
  · simp [keeping, idle]
  · simp

theorem run_cons_error {s' : σ} (h : test s x = (.error f, s')) (n : Nat) (rest : List α) :
    run test s (some (n + 1)) (x :: rest) = ⟨[], 1, some f, s'⟩ := by
  rw [run, h]
  simp

/-- The scan that has looked at items before, and found some of them. -/
def behind (found : List α) (read : Nat) (r : Scan σ α) : Scan σ α :=
  { r with found := found ++ r.found, read := read + r.read }

section

variable (step : ∀ s x, J s → (test s x).1 = passes x ∧ J (test s x).2)

include step

theorem stateAfter_keeps (hs : J s) (xs : List α) : J (stateAfter test s xs) := by
  induction xs generalizing s with
  | nil => exact hs
  | cons x xs ih => exact ih (step s x hs).2

theorem test_eq (hs : J s) {r : Outcome Bool} (hx : passes x = r) : test s x = (r, (test s x).2) :=
  Prod.ext ((step s x hs).1.trans hx) rfl

/-- While more are wanted than pass, a scan reads on. -/
theorem run_append (hs : J s) (hxs : Decided passes xs) (n : Nat) (ys : List α) :
    run test s (some ((hits passes xs).length + (n + 1))) (xs ++ ys) =
      (run test (stateAfter test s xs) (some (n + 1)) ys).behind (hits passes xs) xs.length := by
  induction xs generalizing s with
  | nil => simp [behind, hits, stateAfter]
  | cons x xs ih =>
    obtain ⟨⟨b, hx⟩, hxs⟩ := List.forall_mem_cons.1 hxs
    have htest := test_eq step hs hx
    have hrest := ih (step s x hs).2 hxs
    cases b with
    | false =>
      have hhits : hits passes (x :: xs) = hits passes xs := by simp [hits, hx, isHit]
      rw [hhits, List.cons_append, run, htest]
      · simp only [hrest]
        simp [behind, dropping, stateAfter, Nat.add_right_comm]
      · simp
    | true =>
      have hhits : hits passes (x :: xs) = x :: hits passes xs := by simp [hits, hx, isHit]
      have hless : (hits passes xs).length + 1 + (n + 1) - 1 = (hits passes xs).length + (n + 1) := by omega
      rw [hhits, List.length_cons, List.cons_append, run, htest]
      · simp only [Option.map_some, hless, hrest]
        simp [behind, keeping, stateAfter, Nat.add_right_comm]
      · simp

/-- With the last item that is wanted, a scan is over. -/
theorem run_found (hs : J s) (hbefore : Decided passes before) (hx : passes x = .ok true) (rest : List α) :
    run test s (some ((hits passes before).length + 1)) (before ++ x :: rest) =
      ⟨hits passes (before ++ [x]), before.length + 1, none, stateAfter test s (before ++ [x])⟩ := by
  have htest := test_eq step (stateAfter_keeps step hs before) hx
  rw [run_append step hs hbefore 0, run_cons_hit htest, hits_append, hits_of_ok hx, stateAfter_append]
  rfl

/-- Where fewer items pass than are wanted, a scan ends with the items. -/
theorem run_ended (hs : J s) (hseen : Decided passes seen) (hfew : (hits passes seen).length < k) :
    run test s (some k) seen = ⟨hits passes seen, seen.length, none, stateAfter test s seen⟩ := by
  obtain ⟨n, rfl⟩ := Nat.exists_eq_add_of_lt hfew
  have hrun := run_append step hs hseen n []
  rw [List.append_nil, run_nil] at hrun
  rw [Nat.add_assoc, hrun]
  simp [behind, idle]

/-- A test that fails ends a scan. -/
theorem run_failed (hs : J s) (hbefore : Decided passes before) (hfew : (hits passes before).length < k)
    (hx : passes x = .error f) (rest : List α) : run test s (some k) (before ++ x :: rest) =
      ⟨hits passes before, before.length + 1, some f, stateAfter test s (before ++ [x])⟩ := by
  obtain ⟨n, rfl⟩ := Nat.exists_eq_add_of_lt hfew
  have htest := test_eq step (stateAfter_keeps step hs before) hx
  rw [Nat.add_assoc, run_append step hs hbefore n, run_cons_error htest, stateAfter_append]
  simp [behind, stateAfter]

end

/-- Is the scan one that looks at just these items? -/
structure LooksAt (test : σ → α → Outcome Bool × σ) (passes : α → Outcome Bool) (s : σ) (seen : List α)
    (r : Scan σ α) : Prop where
  ends (h : Decided passes seen) : r = ⟨hits passes seen, seen.length, none, stateAfter test s seen⟩
  fails (before : List α) (x : α) (rest : List α) (f : Failure) (hseen : seen = before ++ x :: rest)
    (hbefore : Decided passes before) (hx : passes x = .error f) :
    r = ⟨hits passes before, before.length + 1, some f, stateAfter test s (before ++ [x])⟩

/-- On every beginning of a source that reaches so far, a scan looks at just the items up to the last one that
is wanted. -/
theorem run_looksAt {source : Stream'.Seq α} (step : ∀ s x, J s → (test s x).1 = passes x ∧ J (test s x).2)
    (hs : J s) (h : UpTo passes k source seen) {n : Nat} (hn : seen.length ≤ n) :
    LooksAt test passes s seen (run test s (some k) (source.take n)) := by
  cases h with
  | @found before x hsource hx hk =>
    rw [List.length_append, List.length_singleton] at hn
    rw [← List.take_append_drop (before.length + 1) (source.take n), take_take hn, hsource, List.append_assoc,
      List.singleton_append]
    subst hk
    constructor
    · intro hseen
      rw [run_found step hs hseen.left hx]
      simp
    · intro before' y rest f hseen hbefore hy
      -- the last item passes, so the one on which the test fails stands before it
      rcases List.eq_nil_or_concat rest with rfl | ⟨rest, z, rfl⟩
      · obtain ⟨-, hxy⟩ := List.append_inj' hseen rfl
        rw [← List.singleton_inj.1 hxy, hx] at hy
        cases hy
      · have hsplit : before ++ [x] = (before' ++ y :: rest) ++ [z] := by simpa using hseen
        obtain ⟨rfl, -⟩ := List.append_inj' hsplit rfl
        rw [List.append_assoc, List.cons_append]
        refine run_failed step hs hbefore ?_ hy _
        rw [hits_append, List.length_append]
        omega
  | ended hsource hfew =>
    rw [hsource, take_ofList, List.take_of_length_le hn]
    constructor
    · intro hseen
      exact run_ended step hs hseen hfew
    · rintro before x rest f rfl hbefore hx
      refine run_failed step hs hbefore ?_ hx rest
      rw [hits_append, List.length_append] at hfew
      omega

end Scan
end Winnow
