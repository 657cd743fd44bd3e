import Winnow.Functions
import Winnow.Proofs.Transport.JsonRoundTrip
/-! # How reading JSON fails

Reading a text fails as data that is no value of the format, or as an object does that it comes to.
`objects` lists those, up to the first failure: the objects inside of one come before it. Only objects with
the reserved keys fail in ways of their own. A date that is no text, and flags or a source of which no pattern
can be made, are mismatches of types; a count and flags that are too large are failures of arithmetic. -/

namespace Winnow.Json
open Outcome

/-! ## Objects -/

/-- Entries of an object, as they are read. -/
abbrev Entries := List (Value × Value)

/-- The start of what stands behind a colon. -/
def afterColon? (cs : List Char) : Option (List Char) :=
  match skipBlanks cs with
  | ':' :: rest => some (skipBlanks rest)
  | _ => none

/-- The key of an entry, and the start of its value. -/
def readKey? : List Char → Option (String × List Char)
  | '"' :: cs => do
    let (key, cs) ← readText? cs
    return (key, ← afterColon? cs)
  | _ => none

/-- An entry is a key and its value, and what comes after them decides whether there are more. -/
theorem readEntries_succ (read : Reader) (fuel : Nat) (done : Entries) (cs : List Char) :
    readEntries read (fuel + 1) done cs =
      match readKey? cs with
      | none => undecodable
      | some (key, cs) => read cs >>= fun (v, cs) =>
        match skipBlanks cs with
        | '}' :: rest => .ok (Value.insert done (.text key) v, rest)
        | ',' :: rest => readEntries read fuel (Value.insert done (.text key) v) (skipBlanks rest)
        | _ => undecodable := by
  by_cases hquote : ∃ rest, cs = '"' :: rest
  · obtain ⟨rest, rfl⟩ := hquote
    rw [readEntries, readKey?]
    rcases readText? rest with _ | ⟨key, rest⟩
    · rfl
    simp only [Option.bind_eq_bind, Option.bind_some, afterColon?]
    rcases skipBlanks rest with _ | ⟨c, rest⟩
    · rfl
    by_cases hcolon : c = ':'
    · subst hcolon
      rfl
    · simp [hcolon]
  · have hquote (rest : List Char) (h : cs = '"' :: rest) : False := hquote ⟨rest, h⟩
    rw [readEntries, readKey?] <;> exact hquote

/-- The objects that reading items comes to. -/
def itemObjects (read : Reader) (found : List Char → List Entries) : Nat → List Char → List Entries
  | 0, _ => []
  | fuel + 1, cs =>
    found cs ++
      match read cs with
      | .ok (_, cs) =>
        match skipBlanks cs with
        | ',' :: rest => itemObjects read found fuel (skipBlanks rest)
        | _ => []
      | .error _ => []

/-- The objects that reading the values of entries comes to. -/
def entryObjects (read : Reader) (found : List Char → List Entries) : Nat → List Char → List Entries
  | 0, _ => []
  | fuel + 1, cs =>
    match readKey? cs with
    | none => []
    | some (_, cs) =>
      found cs ++
        match read cs with
        | .ok (_, cs) =>
          match skipBlanks cs with
          | ',' :: rest => entryObjects read found fuel (skipBlanks rest)
          | _ => []
        | .error _ => []

/-- The objects that reading a value comes to, in the order in which they end: none behind the first failure. -/
def objects : Nat → List Char → List Entries
  | 0, _ => []
  | fuel + 1, cs =>
    match cs with
    | '[' :: rest =>
      match skipBlanks rest with
      | ']' :: _ => []
      | rest => itemObjects (read fuel) (objects fuel) (rest.length + 1) rest
    | '{' :: rest =>
      match skipBlanks rest with
      | '}' :: _ => [[]]
      | rest =>
        entryObjects (read fuel) (objects fuel) (rest.length + 1) rest ++
          ((readEntries (read fuel) (rest.length + 1) [] rest).map Prod.fst).toOption.toList
    | _ => []

/-- The objects that reading a text comes to. -/
def objectsIn (text : String) : List Entries :=
  let cs := skipBlanks text.toList
  objects (cs.length + 1) cs

/-! ## Failures of reading -/

/-- Is it the failure of a text that is no value of the format? -/
abbrev IsUndecodable (f : Failure) : Prop := f = .transport .decoding

variable {α : Type} {P : Failure → Prop}

theorem failsAs_undecodable (hP : P (.transport .decoding)) : FailsAs P (undecodable : Outcome α) :=
  failsAs_error.2 hP

theorem failsAs_readNumber (hP : P (.transport .decoding)) (negative : Bool) (cs : List Char) :
    FailsAs P (readNumber negative cs) := by
  unfold readNumber
  split
  · exact failsAs_undecodable hP
  dsimp only
  split
  · split
    · exact failsAs_ok _
    · exact failsAs_undecodable hP
  · exact failsAs_ok _

theorem failsAs_readAtom (hP : P (.transport .decoding)) (cs : List Char) : FailsAs P (readAtom cs) := by
  unfold readAtom
  split
  · exact failsAs_ok _
  split
  · split
    · exact failsAs_ok _
    · exact failsAs_undecodable hP
  · exact failsAs_readNumber hP _ _
  · exact failsAs_readNumber hP _ _

section

variable {reader : Reader} {found : List Char → List Entries}
  (hread : ∀ cs, FailsAs P (reader cs) ↔ ∀ entries ∈ found cs, FailsAs P (restore entries))
include hread

theorem failsAs_readItems (hP : P (.transport .decoding)) (fuel : Nat) (cs : List Char) :
    FailsAs P (readItems reader fuel cs) ↔
      ∀ entries ∈ itemObjects reader found fuel cs, FailsAs P (restore entries) := by
  have hnone : FailsAs P (undecodable : Outcome (List Value × List Char)) := failsAs_undecodable hP
  induction fuel generalizing cs with
  | zero => simp [readItems, itemObjects, hnone]
  | succ fuel ih =>
    rw [readItems, itemObjects, failsAs_bind, List.forall_mem_append, hread]
    refine and_congr_right fun _ => ?_
    rcases reader cs with f | ⟨x, cs⟩
    · simp
    simp only [Except.ok.injEq, forall_eq']
    split
    · next heq => simp [heq]
    · next heq => simp [heq, failsAs_bind, ih]
    · next hclose hcomma =>
      split
      · next rest heq => exact absurd heq (hcomma rest)
      · simp [hnone]

theorem failsAs_readEntries (hP : P (.transport .decoding)) (fuel : Nat) (done : Entries) (cs : List Char) :
    FailsAs P (readEntries reader fuel done cs) ↔
      ∀ entries ∈ entryObjects reader found fuel cs, FailsAs P (restore entries) := by
  have hnone : FailsAs P (undecodable : Outcome (Entries × List Char)) := failsAs_undecodable hP
  induction fuel generalizing done cs with
  | zero => simp [readEntries, entryObjects, hnone]
  | succ fuel ih =>
    rw [readEntries_succ, entryObjects]
    rcases readKey? cs with _ | ⟨key, cs⟩
    · simp [hnone]
    simp only [failsAs_bind, List.forall_mem_append, hread]
    refine and_congr_right fun _ => ?_
    rcases reader cs with f | ⟨v, cs⟩
    · simp
    simp only [Except.ok.injEq, forall_eq']
    split
    · next heq => simp [heq]
    · next heq => simp [heq, ih]
    · next hclose hcomma =>
      split
      · next rest heq => exact absurd heq (hcomma rest)
      · simp [hnone]

end

/-- Reading fails as undecodable or as the objects do that it comes to. -/
theorem failsAs_read (hP : P (.transport .decoding)) (fuel : Nat) (cs : List Char) :
    FailsAs P (read fuel cs) ↔ ∀ entries ∈ objects fuel cs, FailsAs P (restore entries) := by
  induction fuel generalizing cs with
  | zero => exact iff_of_true (failsAs_undecodable hP) fun _ h => (List.not_mem_nil h).elim
  | succ fuel ih =>
    unfold read objects
    split
    · next rest =>
      split
      · next heq => simp [heq]
      · next hclose => simp [failsAs_bind, failsAs_readItems ih hP]
    · next rest =>
      split
      · next heq => simp [heq, failsAs_bind]
      · next hclose =>
        simp only [failsAs_bind, failsAs_readEntries ih hP, List.forall_mem_append]
        refine and_congr_right fun _ => ?_
        rcases readEntries (read fuel) _ [] (skipBlanks rest) with f | ⟨entries, rest⟩
        · simp [Except.toOption]
        · simp [Except.toOption]
    · simp [failsAs_readAtom hP]

/-! ## Reserved keys -/

/-- Is there a pattern for a source and flags, or none because the source is malformed? -/
def HasPattern (source flags : Value) : Prop :=
  match source with
  | .pattern _ => flags.isHashable = true
  | .text s => ∃ n, Functions.toInt? flags = some n ∧ Pattern.restore s n ≠ .error .countTooLarge
  | _ => False

/-- Can the values at reserved keys be tried, whatever comes of them? A date is a text, and a pattern has a
source and flags of their types, with no number that is too large. -/
structure TagsTyped (entries : Entries) : Prop where
  date : isReserved entries dateKey dateOnlyKey = true → ∃ s, Value.get? entries dateKey = some (.text s)
  pattern : isReserved entries patternKey flagsKey = true →
    HasPattern ((Value.get? entries patternKey).getD .null) ((Value.get? entries flagsKey).getD (.int 0))

theorem failsAs_restoreDate_iff (source : Value) (dateOnly : Bool) :
    FailsAs IsUndecodable (restoreDate source dateOnly) ↔ ∃ s, source = .text s := by
  cases source with
  | text s =>
    simp only [restoreDate, Value.text.injEq, exists_eq', iff_true]
    split
    · exact failsAs_ok _
    · exact failsAs_undecodable (P := IsUndecodable) rfl
  | _ => simp [restoreDate]

/-- A source needs whole flags. -/
theorem restorePattern_source (s : String) (flags : Value) :
    restorePattern (.text s) flags =
      match Functions.toInt? flags with
      | none => .error (.fault .typeMismatch)
      | some n =>
        match Pattern.restore s n with
        | .ok p => .ok (.pattern p)
        | .error .countTooLarge => .error (.fault .overflow)
        | .error _ => undecodable := by
  unfold restorePattern
  cases flags with
  | int i | bool b =>
    simp only [Value.number?, Functions.toInt?, Exact.truncate?_ofInt, Option.getD_some]
    rfl
  | _ => split <;> rfl

/-- A pattern is taken as it is, without flags. -/
theorem failsAs_restorePattern_pattern (hP : P (.transport .decoding)) (p : Pattern) (flags : Value) :
    FailsAs P (restorePattern (.pattern p) flags) ↔ (flags.isHashable = false → P (.fault .typeMismatch)) := by
  unfold restorePattern
  by_cases hflags : flags.isHashable = true
  · by_cases htruth : flags.truth = true <;> simp [hflags, htruth, failsAs_undecodable hP]
  · simp [hflags]

theorem restorePattern_other {source : Value} (hpattern : ∀ p, source ≠ .pattern p) (htext : ∀ s, source ≠ .text s)
    (flags : Value) : restorePattern source flags = .error (.fault .typeMismatch) := by
  unfold restorePattern
  cases source with
  | pattern p => exact absurd rfl (hpattern p)
  | text s => exact absurd rfl (htext s)
  | _ => split <;> rfl

theorem failsAs_restorePattern_iff (source flags : Value) :
    FailsAs IsUndecodable (restorePattern source flags) ↔ HasPattern source flags := by
  cases source with
  | pattern p => simp [failsAs_restorePattern_pattern (P := IsUndecodable) rfl, HasPattern, IsUndecodable]
  | text s =>
    rw [restorePattern_source]
    unfold HasPattern
    rcases Functions.toInt? flags with _ | n
    · simp
    simp only [Option.some.injEq, exists_eq_left']
    rcases Pattern.restore s n with e | p
    · cases e <;> simp [undecodable]
    · simp
  | _ => simp [restorePattern_other, HasPattern]

/-- What has the keys of a date has not those of a pattern. -/
theorem isReserved_pattern_of_date {entries : Entries} (hdate : isReserved entries dateKey dateOnlyKey = true) :
    isReserved entries patternKey flagsKey = false := by
  by_contra hpattern
  rw [Bool.not_eq_false] at hpattern
  unfold isReserved at hdate hpattern
  rw [Bool.and_eq_true, get?_isSome, List.any_map, List.any_eq_true] at hpattern
  rw [Bool.and_eq_true, List.all_eq_true] at hdate
  obtain ⟨⟨⟨k, v⟩, hmem, hkey⟩, -⟩ := hpattern
  have hk := hdate.2 _ hmem
  cases k with
  | text k =>
    obtain rfl : k = patternKey := by simpa [isKey] using hkey
    have hne : ¬ (patternKey == dateKey || patternKey == dateOnlyKey) = true := by decide
    exact hne hk
  | _ => cases hkey

/-- Restoring the entries of an object fails as undecodable at most, just when they are no tag of another type. -/
theorem failsAs_restore_iff (entries : Entries) : FailsAs IsUndecodable (restore entries) ↔ TagsTyped entries := by
  unfold restore
  split
  · next hdate =>
    obtain ⟨source, hsource⟩ := Option.isSome_iff_exists.1 (Bool.and_eq_true_iff.1 hdate).1
    have hpattern := isReserved_pattern_of_date hdate
    rw [failsAs_restoreDate_iff, hsource, Option.getD_some]
    exact ⟨fun h => ⟨fun _ => h.imp fun s hs => by rw [hsource, hs], fun h => by rw [hpattern] at h; cases h⟩,
      fun h => (h.date hdate).imp fun s hs => Option.some.inj (hsource.symm.trans hs)⟩
  · next hdate =>
    split
    · next hpattern =>
      rw [failsAs_restorePattern_iff]
      exact ⟨fun h => ⟨fun h => absurd h hdate, fun _ => h⟩, fun h => h.pattern hpattern⟩
    · next hpattern =>
      exact iff_of_true (failsAs_ok _) ⟨fun h => absurd h hdate, fun h => absurd h hpattern⟩

/-! ## Failures of decoding -/

theorem failsAs_decode (hP : P (.transport .decoding)) (text : String) :
    FailsAs P (decode text) ↔ ∀ entries ∈ objectsIn text, FailsAs P (restore entries) := by
  unfold decode
  dsimp only
  rw [failsAs_bind, failsAs_read hP, objectsIn, and_iff_left]
  rintro ⟨v, rest⟩ -
  split
  · exact failsAs_ok v
  · exact failsAs_undecodable hP

/-- A failure of reading a text is that it is undecodable, that a tag has a value of another type, or that a
number in a pattern is too large. -/
theorem decode_failsAs (text : String) :
    FailsAs (fun f => IsUndecodable f ∨ f = .fault .typeMismatch ∨ f = .fault .overflow) (decode text) := by
  refine (failsAs_decode (.inl rfl) text).2 fun entries _ => ?_
  unfold restore restoreDate
  split
  · split
    · split <;> simp [undecodable]
    · simp
  split
  · generalize (Value.get? entries flagsKey).getD (.int 0) = flags
    generalize (Value.get? entries patternKey).getD .null = source
    cases source with
    | text s =>
      rw [restorePattern_source]
      split
      · simp
      · split <;> simp [undecodable]
    | pattern p => exact (failsAs_restorePattern_pattern (.inl rfl) p flags).2 fun _ => .inr (.inl rfl)
    | _ => simp [restorePattern_other]
  · simp

end Winnow.Json
