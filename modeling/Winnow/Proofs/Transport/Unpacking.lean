import Winnow.Functions
import Winnow.Proofs.Number.Decimal
import Winnow.Proofs.Outcome
import Winnow.Transport.MessagePack
/-! # How unpacking fails

Reading bytes fails as malformed data, or as an extension does that it comes to. `extensions` lists those,
up to the first failure. Of the extensions of expressions only patterns fail in ways of their own: a
malformed source and a count or flags that are too large are no failures of unpacking. -/

namespace Winnow.MessagePack
open Outcome

/-! ## Extensions -/

/-- The code and the data of an extension. -/
abbrev Extension := Int × List UInt8

/-- The code and the data of an extension of a length, if there are as many bytes. -/
def extension? (length : Nat) (bytes : List UInt8) : Option Extension := do
  let (code, rest) ← Bytes.split? 1 bytes
  let (data, _) ← Bytes.split? length rest
  return (Bytes.toInt code, data)

/-- The extensions that reading `n` values comes to. -/
def itemExtensions (read : Reader) (found : List UInt8 → List Extension) :
    Nat → List UInt8 → List Extension
  | 0, _ => []
  | n + 1, bytes =>
    found bytes ++
      match read bytes with
      | .ok (_, rest) => itemExtensions read found n rest
      | .error _ => []

/-- The extensions that reading `n` entries comes to. -/
def entryExtensions (read : Reader) (found : List UInt8 → List Extension) (admits : Value → Bool) :
    Nat → List UInt8 → List Extension
  | 0, _ => []
  | n + 1, bytes =>
    found bytes ++
      match read bytes with
      | .ok (k, rest) =>
        found rest ++
          match read rest with
          | .ok (_, rest) =>
            if admits k && k.isHashable then entryExtensions read found admits n rest else []
          | .error _ => []
      | .error _ => []

/-- The extensions that reading a value comes to, in order: none behind the first failure. -/
def extensions (how : Reading) (limit : Nat) : Nat → List UInt8 → List Extension
  | 0, _ => []
  | fuel + 1, bytes =>
    match readHead? bytes with
    | some (.array n, rest) =>
      if limit < n then [] else itemExtensions (read how limit fuel) (extensions how limit fuel) n rest
    | some (.map n, rest) =>
      if limit / 2 < n then []
      else entryExtensions (read how limit fuel) (extensions how limit fuel) how.admitsKey n rest
    | some (.extension n, rest) => (extension? n rest).toList
    | _ => []

/-- The extensions that reading the whole input comes to. -/
def extensionsIn (how : Reading) (bytes : List UInt8) : List Extension :=
  extensions how bytes.length (bytes.length + 1) bytes

/-! ## Failures of reading -/

/-- Is it the failure of malformed data? -/
abbrev IsMalformed (f : Failure) : Prop := f = .transport .unpacking

variable {α β : Type} {P : Failure → Prop} {how : Reading}

@[simp] theorem malformed_bind (f : α → Outcome β) : (malformed >>= f) = malformed := rfl

@[simp] theorem orMalformed_none : orMalformed (none : Option α) = malformed := rfl

@[simp] theorem orMalformed_some (a : α) : orMalformed (some a) = .ok a := rfl

theorem failsAs_malformed (hP : P (.transport .unpacking)) : FailsAs P (malformed : Outcome α) :=
  failsAs_error.2 hP

theorem failsAs_orMalformed (hP : P (.transport .unpacking)) (x : Option α) :
    FailsAs P (orMalformed x) := by
  cases x with
  | none => exact failsAs_malformed hP
  | some a => exact failsAs_ok a

section

variable {reader : Reader} {found : List UInt8 → List Extension}
  (hread : ∀ bytes, FailsAs P (reader bytes) ↔ ∀ x ∈ found bytes, FailsAs P (how.extension x.1 x.2))
include hread

theorem failsAs_readItems (n : Nat) (bytes : List UInt8) :
    FailsAs P (readItems reader n bytes) ↔
      ∀ x ∈ itemExtensions reader found n bytes, FailsAs P (how.extension x.1 x.2) := by
  induction n generalizing bytes with
  | zero => simp [readItems, itemExtensions]
  | succ n ih =>
    rw [readItems, itemExtensions, failsAs_bind, List.forall_mem_append, hread]
    refine and_congr_right fun _ => ?_
    rcases reader bytes with f | ⟨x, rest⟩
    · simp
    · simp [failsAs_bind, ih]

theorem failsAs_readEntries (hP : P (.transport .unpacking)) (admits : Value → Bool) (n : Nat)
    (entries : List (Value × Value)) (bytes : List UInt8) :
    FailsAs P (readEntries reader admits n entries bytes) ↔
      ∀ x ∈ entryExtensions reader found admits n bytes, FailsAs P (how.extension x.1 x.2) := by
  induction n generalizing entries bytes with
  | zero => simp [readEntries, entryExtensions]
  | succ n ih =>
    rw [readEntries, entryExtensions, failsAs_bind, List.forall_mem_append, hread]
    refine and_congr_right fun _ => ?_
    rcases reader bytes with f | ⟨k, rest⟩
    · simp
    simp only [Except.ok.injEq, forall_eq', failsAs_bind, List.forall_mem_append, hread]
    refine and_congr_right fun _ => ?_
    rcases reader rest with f | ⟨v, rest⟩
    · simp
    -- the key is looked at only now that its value has been read
    by_cases hk : (admits k && k.isHashable) = true
    · simp [hk, ih]
    · simp [hk, failsAs_malformed hP]

end

/-- Reading fails as malformed data or as the extensions do that it comes to. -/
theorem failsAs_read (hP : P (.transport .unpacking)) (how : Reading) (limit fuel : Nat) (bytes : List UInt8) :
    FailsAs P (read how limit fuel bytes) ↔
      ∀ x ∈ extensions how limit fuel bytes, FailsAs P (how.extension x.1 x.2) := by
  have hnone : FailsAs P (malformed : Outcome (Value × List UInt8)) := failsAs_malformed hP
  induction fuel generalizing bytes with
  | zero => exact iff_of_true hnone fun _ hx => (List.not_mem_nil hx).elim
  | succ fuel ih =>
    rw [read, extensions]
    rcases readHead? bytes with _ | ⟨body, rest⟩
    · simp [hnone]
    rw [orMalformed_some, Outcome.ok_bind]
    cases body with
    | value v => simp
    | text n | bytes n => simp [failsAs_bind, failsAs_orMalformed hP]
    | array n =>
      dsimp only
      split
      · simp [hnone]
      · simp [failsAs_bind, failsAs_readItems ih]
    | map n =>
      dsimp only
      split
      · simp [hnone]
      · simp [failsAs_bind, failsAs_readEntries ih hP]
    | extension n =>
      dsimp only [extension?]
      rcases Bytes.split? 1 rest with _ | ⟨code, rest⟩
      · simp [hnone]
      rcases hdata : Bytes.split? n rest with _ | ⟨data, rest⟩
      · simp [hdata, hnone]
      · simp [hdata, failsAs_bind]

theorem failsAs_readAll (hP : P (.transport .unpacking)) (how : Reading) (bytes : List UInt8) :
    FailsAs P (readAll how bytes) ↔ ∀ x ∈ extensionsIn how bytes, FailsAs P (how.extension x.1 x.2) := by
  rw [readAll, failsAs_bind, failsAs_read hP, extensionsIn, and_iff_left]
  rintro ⟨v, rest⟩ -
  dsimp only
  split
  · exact failsAs_ok v
  · exact failsAs_malformed hP

/-! ## Patterns -/

theorem failsAs_foreignExtension (hP : P (.transport .unpacking)) (code : Int) (data : List UInt8) :
    FailsAs P (foreignExtension code data) := by
  unfold foreignExtension
  split
  · exact failsAs_orMalformed hP _
  · exact failsAs_ok _

theorem failsAs_readAll_plain (data : List UInt8) : FailsAs IsMalformed (readAll plainReading data) :=
  (failsAs_readAll (P := IsMalformed) rfl plainReading data).2 fun x _ =>
    failsAs_foreignExtension (P := IsMalformed) rfl x.1 x.2

/-- The source and the flags in the data of a pattern. -/
def pattern? (data : List UInt8) : Option (String × Int) :=
  match (readAll plainReading data).map parts with
  | .ok [.text source, flags] => (Functions.toInt? flags).map fun n => (source, n)
  | _ => none

/-- The value for a source and flags. -/
def restored (source : String) (flags : Int) : Outcome Value :=
  match Pattern.restore source flags with
  | .ok p => .ok (.pattern p)
  | .error .malformed => .error (.fault .badPattern)
  | .error .countTooLarge => .error (.fault .overflow)
  | .error .badFlags => malformed

theorem readPattern_eq (data : List UInt8) :
    readPattern data = match pattern? data with
      | some (source, flags) => restored source flags
      | none => malformed := by
  unfold readPattern pattern?
  rcases hread : readAll plainReading data with f | v
  · rw [failsAs_readAll_plain data f hread]; rfl
  rw [Outcome.ok_bind, Outcome.map_ok]
  generalize parts v = vs
  rcases vs with _ | ⟨source, _ | ⟨flags, _ | ⟨_, _⟩⟩⟩
  · rfl
  · cases source <;> rfl
  · cases source with
    | text s =>
      cases flags with
      | int i =>
        simp only [Value.number?, Functions.toInt?, Exact.truncate?_ofInt, Option.getD_some, Option.map_some]
        rfl
      | bool b =>
        simp only [Value.number?, Functions.toInt?, Exact.truncate?_ofInt, Option.getD_some, Option.map_some]
        rfl
      | _ => rfl
    | _ => rfl
  · cases source <;> rfl

theorem failsAs_expressionExtension (hP : P (.transport .unpacking)) (code : Int) (data : List UInt8) :
    FailsAs P (expressionExtension code data) ↔ (code = patternCode → FailsAs P (readPattern data)) := by
  unfold expressionExtension
  split
  · next h => simp [h, failsAs_orMalformed hP, momentCode, patternCode]
  split
  · next h => simp [h, failsAs_orMalformed hP, dateCode, patternCode]
  split
  · next h => simp [h]
  · next h => simp [h, failsAs_foreignExtension hP]

/-- Is there a pattern for a source and flags, unless the flags contradict each other? -/
def IsRestored (source : String) (flags : Int) : Prop :=
  ∀ e, Pattern.restore source flags = .error e → e = .badFlags

theorem failsAs_restored_iff (source : String) (flags : Int) :
    FailsAs IsMalformed (restored source flags) ↔ IsRestored source flags := by
  unfold restored IsRestored
  rcases Pattern.restore source flags with e | p
  · cases e <;> simp [malformed]
  · simp

/-! ## Failures of unpacking -/

/-- A failure of unpacking is one of malformed data, of a malformed pattern or of a number that is too large. -/
theorem decode_failsAs (bytes : List UInt8) :
    FailsAs (fun f => IsMalformed f ∨ f = .fault .badPattern ∨ f = .fault .overflow) (decode bytes) := by
  refine (failsAs_readAll (.inl rfl) ..).2 fun x _ => ?_
  refine (failsAs_expressionExtension (.inl rfl) ..).2 fun _ => ?_
  rw [readPattern_eq]
  split
  · unfold restored
    split <;> simp [malformed]
  · simp [malformed]

/-- A pattern whose source is an opening parenthesis. -/
def openPattern : List UInt8 := [0xd6, 3, 0x92, 0xa1, 0x28, 0]

end Winnow.MessagePack
