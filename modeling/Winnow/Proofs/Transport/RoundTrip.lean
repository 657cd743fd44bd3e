import Winnow.Proofs.Number.Decimal
import Winnow.Proofs.Time.IsoText
import Winnow.Proofs.Transport.MessagePack
/-! # Expressions sent and received

A value that can be sent is received as it was, but for moments whose offset is less than a second. Sending
fails only for whole numbers outside 64 bits: each step of `encodeWithin` either succeeds or says that there
is such a number, which `Decides` states of a step and carries over to the next. -/

namespace Winnow.MessagePack

/-! ## Extensions read back -/

theorem expressionExtension_moment (m : Moment) :
    expressionExtension momentCode (Bytes.ofText m.iso) = .ok (.moment m.readBack) := by
  simp [expressionExtension, Moment.ofIso?_iso, orMalformed]

theorem expressionExtension_date (d : Date) :
    expressionExtension dateCode (Bytes.ofText d.iso) = .ok (.date d) := by
  simp [expressionExtension, dateCode, momentCode, Date.ofIso?_iso, orMalformed]

theorem patternData_eq_ok {p : Pattern} {data : List UInt8} (h : patternData p = .ok data) :
    encode (.list [.text p.source, .int p.flags]) = .ok data := by
  obtain ⟨head, hhead, h⟩ := Outcome.bind_eq_ok.1 h
  obtain ⟨source, hsource, h⟩ := Outcome.bind_eq_ok.1 h
  obtain ⟨flags, hflags, h⟩ := Outcome.bind_eq_ok.1 h
  obtain rfl := Except.ok.inj h
  have hitems : encodeWithin.encodeItems 511 [.text p.source, .int p.flags] = .ok (source ++ (flags ++ [])) := by
    have hint : encodeWithin 511 (.int p.flags) = .ok flags :=
      encodeWithin_int_eq_ok.2 (orTooLarge_eq_ok.1 hflags)
    have htext : encodeWithin 511 (.text p.source) = .ok source := hsource
    simp [encodeWithin.encodeItems, htext, hint]
  refine encodeWithin_list_eq_ok.2 ⟨head, _, orTooLarge_eq_ok.1 hhead, hitems, ?_⟩
  rw [List.append_nil, List.append_assoc]

theorem expressionExtension_pattern {p : Pattern} {data : List UInt8}
    (hp : Pattern.restore p.source p.flags = .ok p) (h : patternData p = .ok data) :
    expressionExtension patternCode data = .ok (.pattern p) := by
  have hplain : ReadBy plainReading id (.list [.text p.source, .int p.flags]) := ⟨trivial, trivial, trivial⟩
  have hread := readAll_encode hplain (patternData_eq_ok h)
  rw [Value.mapMoments_id] at hread
  show readPattern data = _
  simp [readPattern, hread, parts, Value.number?, Exact.truncate?_ofInt, hp]

/-! ## What can be sent -/

/-- Can the value travel, if what occurs in it can? Lengths fit into 32 bits; keys are texts, whole numbers
or bytes and told apart; a pattern is the one that its source and flags make. -/
def Sendable : Value → Prop
  | .null | .bool _ | .int _ | .float _ | .date _ | .moment _ => True
  | .text s => s.utf8ByteSize < 2 ^ 32
  | .bytes b => b.length < 2 ^ 32
  | .list items => items.length < 2 ^ 32
  | .object entries =>
    entries.length < 2 ^ 32 ∧ Value.KeysApart entries ∧
      ∀ e ∈ entries, (∃ s, e.1 = .text s) ∨ (∃ i, e.1 = .int i) ∨ ∃ b, e.1 = .bytes b
  | .pattern p =>
    Pattern.restore p.source p.flags = .ok p ∧ p.source.utf8ByteSize < 2 ^ 32 ∧
      ∀ data, patternData p = .ok data → data.length < 2 ^ 32
  | _ => False

variable {v : Value}

theorem entriesReadBy_iff {how : Reading} {g : Moment → Moment} {entries : List (Value × Value)} :
    ReadBy.entriesReadBy how g entries ↔ ∀ e ∈ entries, ReadBy how g e.1 ∧ e.1.mapMoments g = e.1 ∧
      how.admitsKey e.1 = true ∧ e.1.isHashable = true ∧ ReadBy how g e.2 := by
  induction entries with
  | nil => simp [ReadBy.entriesReadBy]
  | cons e es ih => simp [ReadBy.entriesReadBy, ih]

theorem extension_expressionReading : expressionReading.extension = expressionExtension := rfl

theorem readBy_of_sendable (hv : v.Throughout Sendable) : ReadBy expressionReading Moment.readBack v := by
  induction v using Value.induction with
  | step v ih =>
    cases v with
    | date d => rw [ReadBy, extension_expressionReading, expressionExtension_date]
    | moment m => rw [ReadBy, extension_expressionReading, expressionExtension_moment]
    | pattern p =>
      rw [ReadBy, extension_expressionReading]
      exact fun data hdata => expressionExtension_pattern hv.here.1 hdata
    | list items => exact itemsReadBy_iff.2 fun x hx => ih x hx (hv.part hx)
    | object entries =>
      refine ⟨entriesReadBy_iff.2 fun e he => ?_, hv.here.2.1⟩
      obtain ⟨hkey, hvalue⟩ := Value.mem_parts_object he
      refine ⟨ih _ hkey (hv.part hkey), ?_, rfl, ?_, ih _ hvalue (hv.part hvalue)⟩
      · rcases hv.here.2.2 e he with ⟨s, hs⟩ | ⟨i, hi⟩ | ⟨b, hb⟩
        · rw [hs]; rfl
        · rw [hi]; rfl
        · rw [hb]; rfl
      · rcases hv.here.2.2 e he with ⟨s, hs⟩ | ⟨i, hi⟩ | ⟨b, hb⟩
        · rw [hs]; rfl
        · rw [hi]; rfl
        · rw [hb]; rfl
    | null | bool | int | float | text | bytes => trivial
    | _ => exact hv.here.elim

/-- What is sent is received with its moments read back. -/
theorem decode_encode (hv : v.Throughout Sendable) {b : List UInt8} (h : encode v = .ok b) :
    decode b = .ok (v.mapMoments Moment.readBack) :=
  readAll_encode (readBy_of_sendable hv) h

/-! ## When sending fails -/

theorem encodeInt?_isSome_iff {i : Int} : (∃ b, encodeInt? i = some b) ↔ -2 ^ 63 ≤ i ∧ i < 2 ^ 64 := by
  constructor
  · rintro ⟨b, h⟩
    unfold encodeInt? at h
    split at h
    · next hi =>
      refine ⟨by omega, ?_⟩
      simp only at h
      split at h
      · omega
      · obtain ⟨m, hm, -⟩ := Option.map_eq_some_iff.1 h
        have hlt : i.toNat < 256 ^ m.2 := by simpa using List.find?_some hm
        have hm := List.mem_of_find?_eq_some hm
        simp only [List.mem_cons, List.not_mem_nil, or_false] at hm
        rcases hm with rfl | rfl | rfl | rfl <;> simp only at hlt <;> omega
    · next hi =>
      refine ⟨?_, by omega⟩
      split at h
      · omega
      · obtain ⟨m, hm, -⟩ := Option.map_eq_some_iff.1 h
        have hle : -(256 ^ m.2 / 2 : Nat) ≤ i := by simpa using List.find?_some hm
        have hm := List.mem_of_find?_eq_some hm
        simp only [List.mem_cons, List.not_mem_nil, or_false] at hm
        rcases hm with rfl | rfl | rfl | rfl <;> simp only at hle <;> omega
  · rintro ⟨hlo, hhi⟩
    rcases Int.lt_or_le i 0 with hneg | hpos
    · unfold encodeInt?
      rw [if_neg (by omega)]
      split
      · exact ⟨_, rfl⟩
      · have hfound : ([(0xd0, 1), (0xd1, 2), (0xd2, 4), (0xd3, 8)].find? fun m =>
            -(Nat.pow 256 m.2 / 2 : Nat) ≤ i).isSome :=
          List.find?_isSome.2 ⟨(0xd3, 8), by simp, decide_eq_true (by simpa using hlo)⟩
        obtain ⟨m, hm⟩ := Option.isSome_iff_exists.1 hfound
        exact ⟨_, by rw [hm]; rfl⟩
    · obtain ⟨n, rfl⟩ := Int.eq_ofNat_of_zero_le hpos
      exact exists_encodeInt? (by omega)

theorem exists_extensionHead? {n : Nat} (hn : n < 2 ^ 32) : ∃ head, extensionHead? n = some head := by
  unfold extensionHead?
  split
  · exact ⟨_, rfl⟩
  · exact exists_lengthHead? (m := (0xc9, 4)) (by simp) hn

theorem exists_encodeExtension (code : Int) {data : List UInt8} (h : data.length < 2 ^ 32) :
    ∃ b, encodeExtension code data = .ok b := by
  obtain ⟨head, hhead⟩ := exists_extensionHead? h
  exact ⟨_, by rw [encodeExtension, hhead]; rfl⟩

/-- The failure of a whole number outside 64 bits. -/
def outOfRange : Failure := .transport (.unsupported "int")

/-- Does the step succeed if the condition holds, and fail for a number out of range if not? -/
def Decides {α : Type} (p : Prop) (x : Outcome α) : Prop :=
  (p ∧ ∃ a, x = .ok a) ∨ (¬ p ∧ x = .error outOfRange)

namespace Decides

variable {α β : Type} {p q : Prop} {x : Outcome α}

theorem of_ok (hp : p) (h : ∃ a, x = .ok a) : Decides p x := .inl ⟨hp, h⟩

theorem congr (h : Decides p x) (hpq : p ↔ q) : Decides q x := by
  rwa [Decides, ← hpq]

theorem bind {f : α → Outcome β} (h : Decides p x) (hf : ∀ a, Decides q (f a)) :
    Decides (p ∧ q) (x >>= f) := by
  rcases h with ⟨hp, a, rfl⟩ | ⟨hp, rfl⟩
  · exact (hf a).congr (by simp [hp])
  · exact .inr ⟨fun h => hp h.1, rfl⟩

theorem map {f : α → β} (h : Decides p x) : Decides p (x >>= fun a => pure (f a)) :=
  (h.bind fun _ => of_ok trivial ⟨_, rfl⟩).congr (iff_of_eq (and_true p))

end Decides

/-- Are all whole numbers that occur within 64 bits? -/
abbrev IntsFit : Value → Prop := Value.EveryInt fun i => -2 ^ 63 ≤ i ∧ i < 2 ^ 64

theorem encodeItems_decides {room : Nat} {xs : List Value}
    (hall : ∀ x ∈ xs, Decides (IntsFit x) (encodeWithin room x)) :
    Decides (∀ x ∈ xs, IntsFit x) (encodeWithin.encodeItems room xs) := by
  induction xs with
  | nil => exact .of_ok (by simp) ⟨[], rfl⟩
  | cons x xs ih =>
    have htail := ih fun y hy => hall y (List.mem_cons_of_mem _ hy)
    have hsteps := (hall x (List.mem_cons_self ..)).bind fun bx => htail.map (f := fun bxs => bx ++ bxs)
    exact hsteps.congr List.forall_mem_cons.symm

theorem encodeEntries_decides {room : Nat} {es : List (Value × Value)}
    (hall : ∀ e ∈ es, Decides (IntsFit e.1) (encodeWithin room e.1) ∧
      Decides (IntsFit e.2) (encodeWithin room e.2)) :
    Decides (∀ e ∈ es, IntsFit e.1 ∧ IntsFit e.2) (encodeWithin.encodeEntries room es) := by
  induction es with
  | nil => exact .of_ok (by simp) ⟨[], rfl⟩
  | cons e es ih =>
    obtain ⟨hkey, hvalue⟩ := hall e (List.mem_cons_self ..)
    have htail := ih fun f hf => hall f (List.mem_cons_of_mem _ hf)
    have hsteps := hkey.bind fun bk => hvalue.bind fun bv => htail.map (f := fun bes => bk ++ bv ++ bes)
    exact hsteps.congr (by rw [List.forall_mem_cons, and_assoc])

theorem orTooLarge_decides {α : Type} {o : Option α} (h : ∃ a, o = some a) : Decides True (orTooLarge o) := by
  obtain ⟨a, rfl⟩ := h
  exact .of_ok trivial ⟨a, rfl⟩

theorem exists_patternData {p : Pattern} (hp : Pattern.restore p.source p.flags = .ok p)
    (hsource : p.source.utf8ByteSize < 2 ^ 32) : ∃ data, patternData p = .ok data := by
  have hflags : -2 ^ 63 ≤ p.flags ∧ p.flags < 2 ^ 64 := by
    unfold Pattern.restore at hp
    split at hp
    · have hmax : Pattern.maxFlags = 2 ^ 31 - 1 := rfl
      split at hp
      · cases hp
      · omega
    · cases hp
  obtain ⟨flags, hflags⟩ := encodeInt?_isSome_iff.2 hflags
  obtain ⟨source, hsource⟩ := @exists_encodeWithin_text 0 _ hsource
  have hsource : encodeText p.source = .ok source := hsource
  refine ⟨[0x92] ++ source ++ flags, ?_⟩
  rw [patternData, hsource, hflags]
  rfl

theorem encodeWithin_decides {room : Nat} (hv : v.Throughout Sendable) (hn : v.NestsWithin room) :
    Decides (IntsFit v) (encodeWithin room v) := by
  induction room generalizing v with
  | zero => exact hn.elim
  | succ room ih =>
    have hparts (u : Value) (hu : u ∈ v.parts) : Decides (IntsFit u) (encodeWithin room u) :=
      ih (hv.part hu) (hn u hu)
    have hatom (hp : v.parts = []) (hi : ∀ i, v ≠ .int i) (h : ∃ b, encodeWithin (room + 1) v = .ok b) :
        Decides (IntsFit v) (encodeWithin (room + 1) v) :=
      .of_ok ((Value.everyInt_iff_parts hi).2 (by simp [hp])) h
    cases v with
    | null | bool | float => exact hatom rfl (by simp) ⟨_, rfl⟩
    | int i =>
      have hrange : IntsFit (.int i) ↔ -2 ^ 63 ≤ i ∧ i < 2 ^ 64 := Value.everyInt_int
      rw [encodeWithin_int]
      refine Decides.congr ?_ (encodeInt?_isSome_iff.trans hrange.symm)
      cases encodeInt? i with
      | some b => exact .of_ok ⟨b, rfl⟩ ⟨b, rfl⟩
      | none => exact .inr ⟨by simp, rfl⟩
    | text s => exact hatom rfl (by simp) (exists_encodeWithin_text hv.here)
    | bytes b =>
      obtain ⟨head, hhead⟩ : ∃ head, bytesHead? b.length = some head :=
        exists_lengthHead? (m := (0xc6, 4)) (by simp) hv.here
      refine hatom rfl (by simp) ⟨head ++ b, ?_⟩
      show encodeBytes b = _
      rw [encodeBytes, hhead]
      rfl
    | date d =>
      have hlen : (Bytes.ofText d.iso).length < 2 ^ 32 := by
        simp [Bytes.ofText, Date.utf8ByteSize_iso]
      exact hatom rfl (by simp) (exists_encodeExtension _ hlen)
    | moment m =>
      have hlen : (Bytes.ofText m.iso).length < 2 ^ 32 := by
        have := m.utf8ByteSize_iso_le
        simp [Bytes.ofText]
        omega
      exact hatom rfl (by simp) (exists_encodeExtension _ hlen)
    | pattern p =>
      obtain ⟨hp, hsource, hlen⟩ := hv.here
      obtain ⟨data, hdata⟩ := exists_patternData hp hsource
      obtain ⟨b, hb⟩ := exists_encodeExtension patternCode (hlen data hdata)
      refine hatom rfl (by simp) ⟨b, ?_⟩
      show (do encodeExtension patternCode (← patternData p)) = _
      rw [hdata]
      exact hb
    | list items =>
      have hhead : ∃ head, arrayHead? items.length = some head :=
        exists_lengthHead? (m := (0xdd, 4)) (by simp) hv.here
      have hsteps := (orTooLarge_decides hhead).bind fun head =>
        (encodeItems_decides hparts).map (f := fun items => head ++ items)
      exact hsteps.congr (by rw [true_and, IntsFit, Value.everyInt_iff_parts (by simp), Value.parts])
    | object entries =>
      have hhead : ∃ head, mapHead? entries.length = some head :=
        exists_lengthHead? (m := (0xdf, 4)) (by simp) hv.here.1
      have hentries (e) (he : e ∈ entries) := Value.mem_parts_object he
      have hsteps := (orTooLarge_decides hhead).bind fun head =>
        (encodeEntries_decides fun e he => ⟨hparts _ (hentries e he).1, hparts _ (hentries e he).2⟩).map
          (f := fun entries => head ++ entries)
      refine hsteps.congr ?_
      rw [true_and, IntsFit, Value.everyInt_iff_parts (by simp), Value.forall_mem_parts_object]
    | _ => exact hv.here.elim

/-! ## The round trip -/

/-- Sending fails exactly for a whole number outside 64 bits, and what is sent is received as it was exactly
when every offset is zero or at least a second. -/
theorem decode_encode_iff (hv : v.Throughout Sendable) (hn : v.NestsWithin maxNesting) :
    (∀ e, encode v = .error e → e = outOfRange) ∧
    ((∃ e, encode v = .error e) ↔ ∃ i, (Value.int i).OccursIn v ∧ (i < -2 ^ 63 ∨ 2 ^ 64 ≤ i)) ∧
    ∀ b, encode v = .ok b → (decode b = .ok v ↔ ∀ m, (Value.moment m).OccursIn v → m.KeepsOffset) := by
  have hsent : Decides (IntsFit v) (encode v) := encodeWithin_decides hv hn
  refine ⟨fun e he => ?_, ⟨?_, ?_⟩, fun b hb => ?_⟩
  · rcases hsent with ⟨-, b, hb⟩ | ⟨-, hfail⟩
    · cases hb.symm.trans he
    · exact Except.error.inj (he.symm.trans hfail)
  · rintro ⟨e, he⟩
    rcases hsent with ⟨-, b, hb⟩ | ⟨hints, -⟩
    · cases hb.symm.trans he
    · simp only [IntsFit, Value.EveryInt, not_forall] at hints
      obtain ⟨i, hi, hrange⟩ := hints
      exact ⟨i, hi, by omega⟩
  · rintro ⟨i, hi, hrange⟩
    rcases hsent with ⟨hints, -⟩ | ⟨-, hfail⟩
    · have := hints i hi
      omega
    · exact ⟨_, hfail⟩
  · rw [decode_encode hv hb, Except.ok.injEq, Value.mapMoments_eq_self_iff]
    exact forall₂_congr fun m _ => Moment.readBack_eq_self_iff

theorem decode_encode_halfPastTwo :
    ∃ b, encode (.list [.moment (Moment.halfPastTwo 19800000000 (by decide))]) = .ok b ∧
      decode b = .ok (.list [.moment (Moment.halfPastTwo 19800000000 (by decide))]) := by
  have hatom : (Value.moment (Moment.halfPastTwo 19800000000 (by decide))).Throughout Sendable :=
    (Value.throughout_atom rfl).2 trivial
  have hv : (Value.list [.moment (Moment.halfPastTwo 19800000000 (by decide))]).Throughout Sendable :=
    Value.throughout_list.2 ⟨by simp [Sendable], by simpa using hatom⟩
  have hn : (Value.list [.moment (Moment.halfPastTwo 19800000000 (by decide))]).NestsWithin maxNesting := by
    intro u hu w hw
    obtain rfl := List.mem_singleton.1 hu
    cases hw
  obtain ⟨-, -, hdecode⟩ := decode_encode_iff hv hn
  refine ⟨_, rfl, (hdecode _ rfl).2 fun m hm => ?_⟩
  rcases Value.occursIn_iff.1 hm with hm | ⟨u, hu, hm⟩
  · cases hm
  obtain rfl := List.mem_singleton.1 hu
  rcases Value.occursIn_iff.1 hm with hm | ⟨w, hw, -⟩
  · rw [Value.moment.inj hm, ← Moment.readBack_eq_self_iff]
    rfl
  · cases hw

/-- A moment with an offset of five microseconds is not received as it was sent. -/
theorem decode_encode_ne : ∃ b, encode (.moment (Moment.halfPastTwo 5 (by decide))) = .ok b ∧
    decode b ≠ .ok (.moment (Moment.halfPastTwo 5 (by decide))) := by
  have hv : (Value.moment (Moment.halfPastTwo 5 (by decide))).Throughout Sendable :=
    (Value.throughout_atom rfl).2 trivial
  refine ⟨_, rfl, fun h => ?_⟩
  have hread := decode_encode hv rfl
  rw [h] at hread
  cases hread

end Winnow.MessagePack
