import Winnow.Proofs.Value.Resembling
/-! # Values with their mappings reordered

`Reordered v w`: the values are the same but for the order of the entries of the mappings in them, at any
depth. Where all mappings are as programs have them, no value tells the two apart by equality. -/

namespace Winnow.Value

/-- The same but for the order of entries of mappings, at any depth. -/
inductive Reordered : Value → Value → Prop
  | refl (v : Value) : Reordered v v
  | list {xs ys : List Value} (h : List.Forall₂ Reordered xs ys) : Reordered (list xs) (list ys)
  | tuple {xs ys : List Value} (h : List.Forall₂ Reordered xs ys) : Reordered (tuple xs) (tuple ys)
  | object {es es' fs : List (Value × Value)} (hperm : es.Perm es') (hkeys : es'.map (·.1) = fs.map (·.1))
      (h : List.Forall₂ Reordered (es'.map (·.2)) (fs.map (·.2))) : Reordered (object es) (object fs)
  | record {es fs : List (String × Value)} (hnames : es.map (·.1) = fs.map (·.1))
      (h : List.Forall₂ Reordered (es.map (·.2)) (fs.map (·.2))) : Reordered (record es) (record fs)

namespace Reordered

variable {v w : Value}

/-- Reordering goes both ways. -/
theorem symm (h : Reordered v w) : Reordered w v := by
  induction v using Value.induction generalizing w with
  | step v ih =>
    have hitems {xs ys : List Value} (h : List.Forall₂ Reordered xs ys) (hxs : ∀ x ∈ xs, x ∈ v.parts) :
        List.Forall₂ Reordered ys xs :=
      .flip (forall₂_imp_of_mem h fun x hx y _ hxy => ih x (hxs x hx) hxy)
    cases h with
    | refl => exact .refl _
    | list h => exact .list (hitems h fun x hx => hx)
    | tuple h => exact .tuple (hitems h fun x hx => hx)
    | record hnames h => exact .record hnames.symm (hitems h fun x hx => hx)
    | @object es es' fs hperm hkeys h =>
      -- the order can be changed after the values as well as before them
      obtain ⟨fs', hentries, hperm'⟩ := List.perm_comp_forall₂ hperm (entries_rel hkeys h)
      have hvalues : List.Forall₂ Reordered (es.map (·.2)) (fs'.map (·.2)) :=
        List.forall₂_map_left_iff.2 (List.forall₂_map_right_iff.2 (hentries.imp fun _ _ hef => hef.2))
      refine .object hperm'.symm ?_ (hitems hvalues fun x hx => ?_)
      · exact (map_eq_of_forall₂ hentries fun _ _ _ _ hef => hef.1).symm
      · obtain ⟨e, he, rfl⟩ := List.mem_map.1 hx
        exact (mem_parts_object he).2

theorem resembles (h : Reordered v w) : Resembles v w := by
  induction v using Value.induction generalizing w with
  | step v ih =>
    have hitems {xs ys : List Value} (h : List.Forall₂ Reordered xs ys) (hxs : ∀ x ∈ xs, x ∈ v.parts) :
        List.Forall₂ Resembles xs ys :=
      forall₂_imp_of_mem h fun x hx y _ hxy => ih x (hxs x hx) hxy
    cases h with
    | refl => exact .refl _
    | list h => exact .list (hitems h fun x hx => hx)
    | tuple h => exact .tuple (hitems h fun x hx => hx)
    | record hnames h => exact .record hnames (hitems h fun x hx => hx)
    | object hperm hkeys h =>
      refine .object hperm hkeys (hitems h fun x hx => ?_)
      obtain ⟨e, he, rfl⟩ := List.mem_map.1 hx
      exact (mem_parts_object (hperm.mem_iff.2 he)).2

end Reordered

/-! ## Equality -/

/-- The entry that is found, wherever it stands, has a value that equals the same values. -/
theorem found_congr {κ : Type} {p : κ × Value → Bool} {es fs : List (κ × Value)} {a : Value}
    (h : List.Forall₂ (fun e f => e.1 = f.1 ∧ Reordered e.2 f.2) es fs)
    (hp : ∀ e f : κ × Value, e.1 = f.1 → p e = p f)
    (heq : ∀ e ∈ es, ∀ w, Reordered e.2 w → a.equal e.2 = a.equal w) :
    (∃ f, es.find? p = some f ∧ a.equal f.2 = true) ↔ ∃ f, fs.find? p = some f ∧ a.equal f.2 = true := by
  have hfound := find?_rel h fun e f hef => hp e f hef.1
  cases he : es.find? p with
  | none =>
    rw [he] at hfound
    cases hf : fs.find? p with
    | none => rfl
    | some f => rw [hf] at hfound; cases hfound
  | some e =>
    rw [he] at hfound
    cases hf : fs.find? p with
    | none => rw [hf] at hfound; cases hfound
    | some f =>
      rw [hf] at hfound
      cases hfound with
      | some hef =>
        have hvalue := heq e (List.mem_of_find?_eq_some he) f.2 hef.2
        simp [hvalue]

/-- Values that are reordered equal the same values. -/
theorem equal_reordered {v w : Value} (h : Reordered v w) (hv : v.WellMapped) (a : Value) :
    a.equal v = a.equal w := by
  induction v using Value.induction generalizing w a with
  | step v ih =>
    have hpart : ∀ u ∈ v.parts, ∀ w, Reordered u w → ∀ a : Value, a.equal u = a.equal w :=
      fun u hu w h a => ih u hu h (hv.part hu) a
    rw [Bool.eq_iff_iff]
    cases h with
    | refl => rfl
    | list h =>
      rw [equal_list_iff, equal_list_iff]
      refine exists_congr fun as => and_congr_right fun _ => forall₂_right_congr h fun x hx y hxy a => ?_
      rw [hpart x hx y hxy a]
    | tuple h =>
      rw [equal_tuple_iff, equal_tuple_iff]
      refine exists_congr fun as => and_congr_right fun _ => forall₂_right_congr h fun x hx y hxy a => ?_
      rw [hpart x hx y hxy a]
    | object hperm hkeys h =>
      have hentries := entries_rel hkeys h
      rw [equal_object_iff, equal_object_iff, hperm.length_eq, hentries.length_eq]
      refine exists_congr fun as => and_congr_right fun _ => and_congr_right fun _ => ?_
      refine forall₂_congr fun e _ => ?_
      rw [find?_eq_of_perm hperm (hv.here.unique e.1)]
      refine found_congr hentries (fun f g hfg => by rw [hfg]) fun f hf w hw => ?_
      exact hpart f.2 (mem_parts_object (hperm.mem_iff.2 hf)).2 w hw e.2
    | record hnames h =>
      have hentries := entries_rel hnames h
      rw [equal_record_iff, equal_record_iff, hentries.length_eq]
      refine exists_congr fun as => and_congr_right fun _ => and_congr_right fun _ => ?_
      refine forall₂_congr fun e _ => ?_
      refine found_congr hentries (fun f g hfg => by rw [hfg]) fun f hf w hw => ?_
      exact hpart f.2 (List.mem_map.2 ⟨f, hf, rfl⟩) w hw e.2

end Winnow.Value
