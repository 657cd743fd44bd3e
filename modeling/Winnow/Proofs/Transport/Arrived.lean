import Winnow.Proofs.Transport.JsonRoundTrip
import Winnow.Proofs.Transport.RoundTrip
import Winnow.Proofs.Value.Arrived
/-! # What the transports make of a value

Both transports write tuples and sets as they write lists, so a value is received as its form with lists in
their place is. What cannot be written is of no concern here; what is left to ask of a value is that its
mappings keep their keys and are not taken for something else. -/

namespace Winnow
open Value

variable {v : Value}

namespace MessagePack

variable {room : Nat}

/-! ## MessagePack -/

theorem encodeItems_listed (items : List Value)
    (h : ∀ x ∈ items, encodeWithin room x.listed = encodeWithin room x) :
    encodeWithin.encodeItems room (items.map listed) = encodeWithin.encodeItems room items := by
  induction items with
  | nil => rfl
  | cons x xs ih =>
    rw [List.map_cons, encodeWithin.encodeItems, encodeWithin.encodeItems, h x (List.mem_cons_self ..),
      ih fun y hy => h y (List.mem_cons_of_mem _ hy)]

theorem encodeEntries_listed {entries : List (Value × Value)}
    (h : ∀ e ∈ entries, encodeWithin room e.1.listed = encodeWithin room e.1 ∧
      encodeWithin room e.2.listed = encodeWithin room e.2) :
    encodeWithin.encodeEntries room (entries.map fun e => (e.1.listed, e.2.listed)) =
      encodeWithin.encodeEntries room entries := by
  induction entries with
  | nil => rfl
  | cons e es ih =>
    obtain ⟨hkey, hvalue⟩ := h e (List.mem_cons_self ..)
    rw [List.map_cons, encodeWithin.encodeEntries, encodeWithin.encodeEntries, hkey, hvalue,
      ih fun f hf => h f (List.mem_cons_of_mem _ hf)]

theorem encodeWithin_listed (room : Nat) (v : Value) : encodeWithin room v.listed = encodeWithin room v := by
  induction v using Value.induction generalizing room with
  | step v ih =>
    cases room with
    | zero => cases v <;> rfl
    | succ room =>
      have hparts (u : Value) (hu : u ∈ v.parts) : encodeWithin room u.listed = encodeWithin room u := ih u hu room
      cases v with
      | list items => rw [listed_list, encodeWithin, encodeWithin, List.length_map, encodeItems_listed items hparts]
      | tuple items => rw [listed_tuple, encodeWithin, encodeWithin, List.length_map, encodeItems_listed items hparts]
      | set items => rw [listed_set, encodeWithin, encodeWithin, List.length_map, encodeItems_listed items hparts]
      | object entries =>
        have hentries (e) (he : e ∈ entries) := mem_parts_object he
        rw [listed_object, encodeWithin, encodeWithin, List.length_map, encodeEntries_listed fun e he =>
          ⟨hparts _ (hentries e he).1, hparts _ (hentries e he).2⟩]
      | _ => rfl

/-- Is the value received, if it is sent and what occurs in it is? A pattern is the one that its source and flags
make, foreign data has none of the codes that are taken, and the keys of a mapping stay. -/
def Receivable : Value → Prop
  | .pattern p => Pattern.restore p.source p.flags = .ok p
  | .extension code _ =>
    -128 ≤ code ∧ code < 128 ∧ ∀ taken ∈ [momentCode, dateCode, patternCode, timestampCode], code ≠ taken
  | .object entries => Keyed (.object entries)
  | _ => True

theorem keyed_of_receivable (hv : v.Throughout Receivable) : v.Throughout Keyed := by
  intro w hw
  have hreceivable := hv w hw
  cases w with
  | object entries => exact hreceivable
  | _ => trivial

theorem exists_encodeEntries {es : List (Value × Value)} {b : List UInt8}
    (h : encodeWithin.encodeEntries room es = .ok b) :
    ∀ e ∈ es, (∃ b, encodeWithin room e.1 = .ok b) ∧ ∃ b, encodeWithin room e.2 = .ok b := by
  induction es generalizing b with
  | nil => exact fun e he => nomatch he
  | cons e es ih =>
    obtain ⟨bk, bv, bes, hk, hbv, hes, -⟩ := encodeEntries_cons_eq_ok h
    exact List.forall_mem_cons.2 ⟨⟨⟨bk, hk⟩, bv, hbv⟩, ih hes⟩

theorem expressionExtension_foreign {code : Int} {data : List UInt8}
    (h : ∀ taken ∈ [momentCode, dateCode, patternCode, timestampCode], code ≠ taken) :
    expressionExtension code data = .ok (.extension code data) := by
  simp only [List.mem_cons, List.not_mem_nil, or_false, forall_eq_or_imp, forall_eq] at h
  obtain ⟨hmoment, hdate, hpattern, htimestamp⟩ := h
  rw [expressionExtension, if_neg hmoment, if_neg hdate, if_neg hpattern, foreignExtension, if_neg htimestamp]

/-- What is sent is read back with lists in the place of tuples and sets. -/
theorem readBy_listed {b : List UInt8} (hv : v.Throughout Receivable) (h : encodeWithin room v = .ok b) :
    ReadBy expressionReading Moment.readBack v.listed := by
  induction v using Value.induction generalizing room b with
  | step v ih =>
    obtain ⟨room, rfl⟩ := room_pos h
    have hitems {head : Outcome (List UInt8)} {items : List Value} (hparts : ∀ x ∈ items, x ∈ v.parts)
        (h : (do return (← head) ++ (← encodeWithin.encodeItems room items)) = Except.ok b) :
        ReadBy expressionReading Moment.readBack (.list (items.map listed)) := by
      obtain ⟨_, -, h⟩ := Outcome.bind_eq_ok.1 h
      obtain ⟨body, hbody, -⟩ := Outcome.bind_eq_ok.1 h
      refine itemsReadBy_iff.2 (List.forall_mem_map.2 fun x hx => ?_)
      obtain ⟨bx, hbx⟩ := exists_encodeItems.1 ⟨body, hbody⟩ x hx
      exact ih x (hparts x hx) (hv.part (hparts x hx)) hbx
    cases v with
    | list items =>
      rw [listed_list]
      exact hitems (fun x hx => hx) h
    | tuple items =>
      rw [listed_tuple]
      exact hitems (fun x hx => hx) h
    | set items =>
      rw [listed_set]
      exact hitems (fun x hx => hx) h
    | object entries =>
      obtain ⟨_, -, h⟩ := Outcome.bind_eq_ok.1 h
      obtain ⟨body, hbody, -⟩ := Outcome.bind_eq_ok.1 h
      obtain ⟨⟨hhash, hapart⟩, hstay⟩ := hv.here
      have hkey (e) (he : e ∈ entries) : e.1.listed = e.1 := listed_key (hhash e he) (hstay e he)
      rw [listed_object]
      refine ⟨entriesReadBy_iff.2 (List.forall_mem_map.2 fun e he => ?_), ?_⟩
      · obtain ⟨⟨bk, hbk⟩, bv, hbv⟩ := exists_encodeEntries hbody e he
        obtain ⟨hpartKey, hpartValue⟩ := mem_parts_object he
        refine ⟨ih _ hpartKey (hv.part hpartKey) hbk, ?_, rfl, ?_, ih _ hpartValue (hv.part hpartValue) hbv⟩
        · show e.1.arrived = e.1.listed
          rw [hkey e he]
          exact hstay e he
        · show e.1.listed.isHashable = true
          rw [hkey e he]
          exact hhash e he
      · have hkeys : (entries.map fun e => (e.1.listed, e.2.listed)).map Prod.fst = entries.map Prod.fst := by
          rw [List.map_map]
          exact List.map_congr_left fun e he => hkey e he
        rwa [keysApart_iff, hkeys, ← keysApart_iff]
    | date d =>
      show ReadBy expressionReading Moment.readBack (.date d)
      rw [ReadBy, extension_expressionReading, expressionExtension_date]
    | moment m =>
      show ReadBy expressionReading Moment.readBack (.moment m)
      rw [ReadBy, extension_expressionReading, expressionExtension_moment]
    | pattern p => exact fun data hdata => expressionExtension_pattern hv.here hdata
    | extension code data =>
      obtain ⟨hlo, hhi, hcode⟩ := hv.here
      exact ⟨hlo, hhi, expressionExtension_foreign hcode⟩
    | null | bool | int | float | text | bytes => trivial
    | _ => cases h

/-- What is sent arrives. -/
theorem decode_arrived {b : List UInt8} (hv : v.Throughout Receivable) (h : encode v = .ok b) :
    decode b = .ok v.arrived := by
  have hlisted : encode v.listed = .ok b := (encodeWithin_listed maxNesting v).trans h
  exact readAll_encode (readBy_listed hv h) hlisted

end MessagePack

namespace Json

variable {level : Nat} {t : String}

/-! ## JSON -/

/-- Is the value read back, if it is written and what occurs in it is? A pattern is the one that its source and
flags make, and mappings have texts for keys, but not the reserved ones alone. -/
def Legible : Value → Prop
  | .pattern p => Portable (.pattern p)
  | .object entries => Portable (.object entries)
  | _ => True

theorem keyed_of_legible (hv : v.Throughout Legible) : v.Throughout Keyed := by
  intro w hw
  have hlegible := hv w hw
  cases w with
  | object entries =>
    obtain ⟨htexts, hapart, -⟩ := hlegible
    refine ⟨⟨fun e he => ?_, hapart⟩, fun e he => ?_⟩ <;>
      (obtain ⟨k, hk⟩ := htexts e he; rw [hk]; rfl)
  | _ => trivial

theorem write_listed (hv : v.Throughout Legible) : write {} level v.listed = write {} level v := by
  induction v using Value.induction generalizing level with
  | step v ih =>
    have hitems (items : List Value) (h : ∀ x ∈ items, x ∈ v.parts) :
        write.writeItems {} (level + 1) (items.map listed) = write.writeItems {} (level + 1) items := by
      rw [writeItems_eq, writeItems_eq, List.map_map]
      exact List.map_congr_left fun x hx => ih x (h x hx) (hv.part (h x hx))
    cases v with
    | list items => rw [listed_list, write, write, hitems items fun x hx => hx]
    | tuple items => rw [listed_tuple, write, write, hitems items fun x hx => hx]
    | set items => rw [listed_set, write, write, hitems items fun x hx => hx]
    | object entries =>
      rw [listed_object, write, write, writeEntries_eq, writeEntries_eq, List.map_map]
      refine congrArg (entriesText {} level) (List.map_congr_left fun e he => ?_)
      obtain ⟨k, hk⟩ := hv.here.1 e he
      have hpart := (mem_parts_object he).2
      exact Prod.ext (by simp [hk, listed]) (ih _ hpart (hv.part hpart))
    | _ => rfl

theorem portable_listed (hv : v.Throughout Legible) (h : write {} level v = .ok t) :
    v.listed.Throughout Portable := by
  induction v using Value.induction generalizing level t with
  | step v ih =>
    have hitems (items : List Value) (hparts : ∀ x ∈ items, x ∈ v.parts)
        (h : itemsText {} level (write.writeItems {} (level + 1) items) = .ok t) :
        (list (items.map listed)).Throughout Portable := by
      rw [writeItems_eq] at h
      refine throughout_list.2 ⟨trivial, List.forall_mem_map.2 fun x hx => ?_⟩
      obtain ⟨tx, htx⟩ := exists_itemsText_iff.1 ⟨t, h⟩ _ (List.mem_map.2 ⟨x, hx, rfl⟩)
      exact ih x (hparts x hx) (hv.part (hparts x hx)) htx
    cases v with
    | list items =>
      rw [listed_list]
      exact hitems items (fun x hx => hx) h
    | tuple items =>
      rw [listed_tuple]
      exact hitems items (fun x hx => hx) h
    | set items =>
      rw [listed_set]
      exact hitems items (fun x hx => hx) h
    | object entries =>
      obtain ⟨htexts, hapart, hdate, hpattern⟩ := hv.here
      have hkey (e) (he : e ∈ entries) : e.1.listed = e.1 := by
        obtain ⟨k, hk⟩ := htexts e he
        rw [hk]
        rfl
      have hkeys : (entries.map fun e => (e.1.listed, e.2.listed)).map Prod.fst = entries.map Prod.fst := by
        rw [List.map_map]
        exact List.map_congr_left fun e he => hkey e he
      rw [write, writeEntries_eq] at h
      rw [listed_object]
      refine throughout_object.2 ⟨⟨?_, ?_, ?_, ?_⟩, List.forall_mem_map.2 fun e he => ⟨?_, ?_⟩⟩
      · refine List.forall_mem_map.2 fun e he => ?_
        rw [hkey e he]
        exact htexts e he
      · rwa [keysApart_iff, hkeys, ← keysApart_iff]
      · rwa [isReserved_eq, hkeys, ← isReserved_eq]
      · rwa [isReserved_eq, hkeys, ← isReserved_eq]
      · obtain ⟨k, hk⟩ := htexts e he
        show e.1.listed.Throughout Portable
        rw [hk]
        exact (throughout_atom rfl).2 trivial
      · obtain ⟨-, te, hte⟩ := exists_entriesText_iff.1 ⟨t, h⟩ _ (List.mem_map.2 ⟨e, he, rfl⟩)
        have hpart := (mem_parts_object he).2
        exact ih _ hpart (hv.part hpart) hte
    | float f => exact (throughout_atom rfl).2 (portable_float f)
    | pattern p => exact (throughout_atom rfl).2 hv.here
    | extension code data =>
      obtain ⟨_, hdata⟩ := exists_itemsText_iff.1 ⟨t, h⟩ _ (List.mem_cons_of_mem _ (List.mem_cons_self ..))
      cases hdata
    | null | bool | int | text | date | moment => exact (throughout_atom rfl).2 trivial
    | _ => cases h

/-- What is written arrives. -/
theorem decode_arrived (hv : v.Throughout Legible) (h : encode {} v = .ok t) : decode t = .ok v.arrived :=
  decode_encode (portable_listed hv h) ((write_listed hv).trans h)

end Json

end Winnow
