import Winnow.Operator.Comparison
import Winnow.Proofs.Value.Equality
/-! # Strict equality at every depth

Two values are strictly equal when they have one shape and the leaves that correspond are of one family and
equal, texts up to case where case does not matter. Equality with an operand is strict for two leaves. Two
containers are compared by the equality of values, which looks at no family and folds no text: it takes the
flag for the number that denotes the same, and a text only for itself. These are the only differences. -/

namespace Winnow.Value

/-! ## What corresponds in two values -/

/-- Is the value no list, tuple or mapping? -/
def isLeaf : Value → Bool
  | list _ | tuple _ | object _ => false
  | _ => true

/-- The parts of two values that stand at one place or under one key. -/
def pairs : Value → Value → List (Value × Value)
  | list xs, list ys | tuple xs, tuple ys => xs.zip ys
  | object es, object fs => es.filterMap fun e => (fs.find? fun f => e.1.equal f.1).map fun f => (e.2, f.2)
  | _, _ => []

/-- Are the first two values the last two, or do they stand at one place in them, at any depth? -/
inductive Correspond (x y : Value) : Value → Value → Prop
  | here : Correspond x y x y
  | within {a b : Value} {p : Value × Value} (hp : p ∈ pairs a b) (h : Correspond x y p.1 p.2) : Correspond x y a b

/-- Are two values leaves, sequences of one kind and length, or mappings with the same keys? -/
def SameKind : Value → Value → Prop
  | list xs, list ys | tuple xs, tuple ys => xs.length = ys.length
  | object es, object fs => es.length = fs.length ∧ ∀ e ∈ es, ∃ f, fs.find? (fun f => e.1.equal f.1) = some f
  | a, b => a.isLeaf = true ∧ b.isLeaf = true

/-- Are two leaves of one family and equal? -/
def SameLeaf (caseSensitive : Bool) : Value → Value → Prop
  | text s, text t => foldCase caseSensitive s = foldCase caseSensitive t
  | x, y => x.family = y.family ∧ x.equal y = true

/-- Have two values one shape, and the same leaves at every place? -/
structure StrictlyEqual (caseSensitive : Bool) (a b : Value) : Prop where
  shape : ∀ x y, Correspond x y a b → SameKind x y
  leaves : ∀ x y, Correspond x y a b → x.isLeaf = true → y.isLeaf = true → SameLeaf caseSensitive x y

/-- Is one value a flag and the other one a number? -/
def FlagBesideNumber (x y : Value) : Prop :=
  (x.family = .flag ∧ y.family = .number) ∨ (x.family = .number ∧ y.family = .flag)

variable {a b : Value} {caseSensitive : Bool}

theorem forall_correspond_iff {P : Value → Value → Prop} : (∀ x y, Correspond x y a b → P x y) ↔
    P a b ∧ ∀ p ∈ pairs a b, ∀ x y, Correspond x y p.1 p.2 → P x y := by
  constructor
  · intro h
    exact ⟨h a b .here, fun p hp x y hxy => h x y (.within hp hxy)⟩
  · rintro ⟨hab, hpairs⟩ x y (_ | ⟨hp, hxy⟩)
    · exact hab
    · exact hpairs _ hp x y hxy

theorem mem_parts_of_mem_pairs {p : Value × Value} (h : p ∈ pairs a b) : p.1 ∈ a.parts := by
  revert h
  fun_cases pairs a b <;> intro h
  case case1 | case2 => exact (List.of_mem_zip h).1
  case case3 es fs =>
    obtain ⟨e, he, hp⟩ := List.mem_filterMap.1 h
    obtain ⟨f, -, rfl⟩ := Option.map_eq_some_iff.1 hp
    exact (mem_parts_object he).2
  case case4 => cases h

theorem pairs_of_isLeaf (h : a.isLeaf = true) (b : Value) : pairs a b = [] := by
  cases a with
  | list | tuple | object => cases h
  | _ => rfl

theorem forall_correspond_of_isLeaf {P : Value → Value → Prop} (ha : a.isLeaf = true) :
    (∀ x y, Correspond x y a b → P x y) ↔ P a b := by
  rw [forall_correspond_iff, pairs_of_isLeaf ha]
  exact and_iff_left fun _ hp => absurd hp List.not_mem_nil

theorem forall_correspond_list {P : Value → Value → Prop} {xs ys : List Value} :
    (∀ x y, Correspond x y (list xs) (list ys) → P x y) ↔
      P (list xs) (list ys) ∧ ∀ p ∈ xs.zip ys, ∀ x y, Correspond x y p.1 p.2 → P x y := forall_correspond_iff

theorem forall_correspond_tuple {P : Value → Value → Prop} {xs ys : List Value} :
    (∀ x y, Correspond x y (tuple xs) (tuple ys) → P x y) ↔
      P (tuple xs) (tuple ys) ∧ ∀ p ∈ xs.zip ys, ∀ x y, Correspond x y p.1 p.2 → P x y := forall_correspond_iff

theorem SameKind.isLeaf_eq (h : SameKind a b) : a.isLeaf = b.isLeaf := by
  revert h
  fun_cases SameKind a b <;> intro h
  case case1 | case2 | case3 => rfl
  case case4 => exact h.1.trans h.2.symm

/-! ## Leaves -/

/-- A leaf equals only leaves of its family, but for flags and numbers. -/
theorem leaf_of_equal (ha : a.isLeaf = true) (h : a.equal b = true) :
    b.isLeaf = true ∧ (a.family = b.family ∨ FlagBesideNumber a b) := by
  revert h
  fun_cases equal a b <;> intro h
  case case1 | case2 | case4 => cases ha
  case case3 | case5 => exact ⟨rfl, .inl rfl⟩
  case case6 =>
    cases sameAtom_of_equalAtoms h with
    | refl => exact ⟨ha, .inl rfl⟩
    | moments => exact ⟨rfl, .inl rfl⟩
    | numbers hx hy =>
      cases a with
      | bool _ | int _ | float _ =>
        cases b with
        | bool _ | int _ | float _ => simp [isLeaf, family, FlagBesideNumber]
        | _ => cases hy
      | _ => cases hx

namespace FlagBesideNumber

theorem family_ne (h : FlagBesideNumber a b) : a.family ≠ b.family := by
  rcases h with ⟨ha, hb⟩ | ⟨ha, hb⟩ <;> simp [ha, hb]

theorem isLeaf (h : FlagBesideNumber a b) : a.isLeaf = true ∧ b.isLeaf = true := by
  have hleaf {v : Value} (hv : v.family ≠ .other) : v.isLeaf = true := by
    cases v <;> first | rfl | exact absurd rfl hv
  constructor <;> apply hleaf <;> rcases h with ⟨ha, hb⟩ | ⟨ha, hb⟩ <;> simp [ha, hb]

end FlagBesideNumber

theorem SameLeaf.family_eq (h : SameLeaf caseSensitive a b) : a.family = b.family := by
  revert h
  fun_cases SameLeaf caseSensitive a b <;> intro h
  case case1 => rfl
  case case2 => exact h.1

theorem matchesValue_iff_sameLeaf (ha : a ≠ missing) :
    a.matchesValue caseSensitive b = true ↔ SameLeaf caseSensitive a b := by
  fun_cases matchesValue caseSensitive a b
  case case1 => exact absurd rfl ha
  case case2 => exact beq_iff_eq
  case case3 hmissing htexts =>
    rw [SameLeaf, Bool.and_eq_true, beq_iff_eq]
    exact htexts

theorem SameLeaf.equal (h : SameLeaf caseSensitive a b) (htext : ∀ s t, a = text s → b = text t → s = t) :
    a.equal b = true := by
  revert h
  fun_cases SameLeaf caseSensitive a b <;> intro h
  case case1 s t => exact beq_iff_eq.2 (htext s t rfl rfl)
  case case2 => exact h.2

/-- Leaves that are equal are the same, but for a flag and a number. -/
theorem sameLeaf_of_equal (ha : a.isLeaf = true) (h : a.equal b = true) (hflag : ¬FlagBesideNumber a b) :
    SameLeaf caseSensitive a b := by
  have hfamily := (leaf_of_equal ha h).2.resolve_right hflag
  revert h hfamily
  fun_cases SameLeaf caseSensitive a b <;> intro h hfamily
  case case1 s t => exact congrArg (foldCase caseSensitive) (eq_of_beq h)
  case case2 => exact ⟨hfamily, h⟩

/-! ## Containers -/

theorem sameKind_of_equal (h : a.equal b = true) : SameKind a b := by
  cases a with
  | list xs =>
    cases b with
    | list ys => exact (equalLists_iff.1 h).length_eq
    | _ => cases h
  | tuple xs =>
    cases b with
    | tuple ys => exact (equalLists_iff.1 h).length_eq
    | _ => cases h
  | object es =>
    cases b with
    | object fs =>
      obtain ⟨_, heq, hlen, hall⟩ := equal_object_iff.1 h
      obtain rfl := object.inj heq
      exact ⟨hlen, fun e he => (hall e he).imp fun _ hf => hf.1⟩
    | _ => cases h
  | _ => exact ⟨rfl, (leaf_of_equal rfl h).1⟩

theorem SameLeaf.sameKind (h : SameLeaf caseSensitive a b) : SameKind a b := by
  revert h
  fun_cases SameLeaf caseSensitive a b <;> intro h
  case case1 => exact ⟨rfl, rfl⟩
  case case2 => exact sameKind_of_equal h.2

/-- Items are equal at all places when the sequences are as long as each other and those that correspond
are equal. -/
theorem equalLists_iff_zip {xs ys : List Value} : equal.equalLists xs ys = true ↔
    xs.length = ys.length ∧ ∀ p ∈ xs.zip ys, p.1.equal p.2 = true := by
  rw [equalLists_iff, List.forall₂_iff_zip]
  exact and_congr_right fun _ => ⟨fun h p hp => h hp, fun h _ _ hp => h _ hp⟩

theorem equal_object_iff_pairs {es fs : List (Value × Value)} : (object es).equal (object fs) = true ↔
    SameKind (object es) (object fs) ∧ ∀ p ∈ pairs (object es) (object fs), p.1.equal p.2 = true := by
  have hpairs : (∀ p ∈ pairs (object es) (object fs), p.1.equal p.2 = true) ↔
      ∀ e ∈ es, ∀ f, fs.find? (fun f => e.1.equal f.1) = some f → e.2.equal f.2 = true := by
    simp only [pairs, List.mem_filterMap, Option.map_eq_some_iff]
    constructor
    · intro h e he f hf
      exact h _ ⟨e, he, f, hf, rfl⟩
    · rintro h _ ⟨e, he, f, hf, rfl⟩
      exact h e he f hf
  rw [hpairs]
  constructor
  · intro h
    obtain ⟨_, heq, -, hall⟩ := equal_object_iff.1 h
    obtain rfl := object.inj heq
    refine ⟨sameKind_of_equal h, fun e he f hf => ?_⟩
    obtain ⟨f', hf', hvalue⟩ := hall e he
    obtain rfl := Option.some.inj (hf.symm.trans hf')
    exact hvalue
  · rintro ⟨⟨hlen, hkeys⟩, hvalues⟩
    refine equal_object_iff.2 ⟨es, rfl, hlen, fun e he => ?_⟩
    obtain ⟨f, hf⟩ := hkeys e he
    exact ⟨f, hf, hvalues e he f hf⟩

/-- One level of equality: the kinds, the leaves, and what corresponds. -/
theorem equal_iff_pairs : a.equal b = true ↔ (SameKind a b ∧ (a.isLeaf = true → a.equal b = true)) ∧
    ∀ p ∈ pairs a b, p.1.equal p.2 = true := by
  constructor
  · intro h
    refine ⟨⟨sameKind_of_equal h, fun _ => h⟩, ?_⟩
    fun_cases pairs a b
    case case1 | case2 => exact (equalLists_iff_zip.1 h).2
    case case3 => exact (equal_object_iff_pairs.1 h).2
    case case4 => exact fun _ hp => absurd hp List.not_mem_nil
  · rintro ⟨⟨hkind, hleaf⟩, hpairs⟩
    revert hkind hpairs
    fun_cases SameKind a b <;> intro hpairs hkind
    case case1 | case2 => exact equalLists_iff_zip.2 ⟨hkind, hpairs⟩
    case case3 => exact equal_object_iff_pairs.2 ⟨hkind, hpairs⟩
    case case4 => exact hleaf hkind.1

/-- Equality of values is equality of the leaves that correspond in values of one shape. -/
theorem equal_iff_correspond : a.equal b = true ↔
    ∀ x y, Correspond x y a b → SameKind x y ∧ (x.isLeaf = true → x.equal y = true) := by
  induction a using Value.induction generalizing b with
  | step a ih =>
    -- Both sides open by one level; a pair of parts begins with a part of the first value.
    rw [equal_iff_pairs, forall_correspond_iff]
    refine and_congr_right fun _ => forall₂_congr fun p hp => ?_
    exact ih p.1 (mem_parts_of_mem_pairs hp)

/-- Where two values are equal, a flag that stands where the other has a number is the only thing that keeps
them from being strictly equal. -/
theorem strictlyEqual_iff_of_equal (h : a.equal b = true) : StrictlyEqual caseSensitive a b ↔
    ∀ x y, Correspond x y a b → ¬FlagBesideNumber x y := by
  have hall := equal_iff_correspond.1 h
  constructor
  · intro hstrict x y hxy hflag
    have hleaves : x.isLeaf = true ∧ y.isLeaf = true := hflag.isLeaf
    have hfamily := (hstrict.leaves x y hxy hleaves.1 hleaves.2).family_eq
    exact hflag.family_ne hfamily
  · intro hflags
    refine ⟨fun x y hxy => (hall x y hxy).1, fun x y hxy hx _ => ?_⟩
    exact sameLeaf_of_equal hx ((hall x y hxy).2 hx) (hflags x y hxy)

/-- Where two values are strictly equal, texts that differ in case are the only thing that keeps them from
being equal. -/
theorem StrictlyEqual.equal_iff (h : StrictlyEqual caseSensitive a b) : a.equal b = true ↔
    ∀ s t, Correspond (text s) (text t) a b → s = t := by
  constructor
  · intro heq s t hst
    exact eq_of_beq ((equal_iff_correspond.1 heq _ _ hst).2 rfl)
  · intro htexts
    refine equal_iff_correspond.2 fun x y hxy => ⟨h.shape x y hxy, fun hx => ?_⟩
    have hy : y.isLeaf = true := (h.shape x y hxy).isLeaf_eq ▸ hx
    refine (h.leaves x y hxy hx hy).equal ?_
    rintro s t rfl rfl
    exact htexts s t hxy

/-! ## Equality with an operand -/

theorem matchesValue_iff_strictlyEqual_of_isLeaf (ha : a ≠ missing) (hleaf : a.isLeaf = true) :
    a.matchesValue caseSensitive b = true ↔ StrictlyEqual caseSensitive a b := by
  rw [matchesValue_iff_sameLeaf ha]
  constructor
  · intro h
    exact ⟨(forall_correspond_of_isLeaf hleaf).2 h.sameKind, (forall_correspond_of_isLeaf hleaf).2 fun _ _ => h⟩
  · intro h
    exact h.leaves a b .here hleaf ((h.shape a b .here).isLeaf_eq ▸ hleaf)

theorem family_of_not_isLeaf (h : a.isLeaf = false) : a.family = .other := by
  cases a with
  | list | tuple | object => rfl
  | _ => cases h

/-- Two containers are compared as values, whatever the case mode. -/
theorem matchesValue_eq_equal (hleaf : a.isLeaf = false) : a.matchesValue caseSensitive b = a.equal b := by
  have hmatches : a.matchesValue caseSensitive b = (a.family == b.family && a.equal b) := by
    cases a with
    | list | tuple | object => rfl
    | _ => cases hleaf
  rw [hmatches, Bool.and_eq_right_iff_imp, beq_iff_eq]
  intro h
  have hb : b.isLeaf = false := (sameKind_of_equal h).isLeaf_eq ▸ hleaf
  rw [family_of_not_isLeaf hleaf, family_of_not_isLeaf hb]

/-- Equality with an operand is strict equality exactly when, for two containers, no flag stands in one where
the other has the number it denotes, and no text where the other has it in another case. -/
theorem matchesValue_strict_iff (ha : a ≠ missing) :
    (a.matchesValue caseSensitive b = true ↔ StrictlyEqual caseSensitive a b) ↔
      (a.isLeaf = false →
        (a.equal b = true → ∀ x y, Correspond x y a b → ¬FlagBesideNumber x y) ∧
        (StrictlyEqual caseSensitive a b → ∀ s t, Correspond (text s) (text t) a b → s = t)) := by
  cases hleaf : a.isLeaf with
  | true => simp only [matchesValue_iff_strictlyEqual_of_isLeaf ha hleaf, reduceCtorEq, false_implies]
  | false =>
    rw [matchesValue_eq_equal hleaf, forall_prop_of_true rfl]
    constructor
    · intro h
      exact ⟨fun heq => (strictlyEqual_iff_of_equal heq).1 (h.1 heq), fun hs => hs.equal_iff.1 (h.2 hs)⟩
    · rintro ⟨hflags, htexts⟩
      exact ⟨fun heq => (strictlyEqual_iff_of_equal heq).2 (hflags heq), fun hs => hs.equal_iff.2 (htexts hs)⟩

/-- A list that holds a text and, one level deeper, a flag. -/
def flagBehindText : Value := list [text "a", tuple [bool true]]

/-- Beside itself it has a flag only where there is a flag, and one text only where the other is. -/
theorem matchesValue_strict_iff_flagBehindText : flagBehindText ≠ missing ∧
    flagBehindText.matchesValue false flagBehindText = true ∧ StrictlyEqual false flagBehindText flagBehindText := by
  have hne : flagBehindText ≠ missing := by simp [flagBehindText]
  have hmatches : flagBehindText.matchesValue false flagBehindText = true := by decide
  have hplaces {P : Value → Value → Prop} (hlist : P flagBehindText flagBehindText) (htext : P (text "a") (text "a"))
      (htuple : P (tuple [bool true]) (tuple [bool true])) (hbool : P (bool true) (bool true)) :
      ∀ x y, Correspond x y flagBehindText flagBehindText → P x y :=
    forall_correspond_list.2 ⟨hlist, List.forall_mem_cons.2 ⟨(forall_correspond_of_isLeaf rfl).2 htext,
      List.forall_mem_singleton.2 (forall_correspond_tuple.2 ⟨htuple,
        List.forall_mem_singleton.2 ((forall_correspond_of_isLeaf rfl).2 hbool)⟩)⟩⟩
  have hflags : ∀ x y, Correspond x y flagBehindText flagBehindText → ¬FlagBesideNumber x y := by
    apply hplaces <;> exact fun h => h.family_ne rfl
  have htexts : ∀ x y, Correspond x y flagBehindText flagBehindText → x = y := by
    apply hplaces <;> rfl
  exact ⟨hne, hmatches, ((matchesValue_strict_iff hne).2 fun _ =>
    ⟨fun _ => hflags, fun _ s t hst => text.inj (htexts _ _ hst)⟩).1 hmatches⟩

/-- A list with a flag passes for one with a number, and case counts in lists even where it does not matter. -/
theorem matchesValue_not_strict :
    ¬((list [bool true]).matchesValue true (list [int 1]) = true ↔
      StrictlyEqual true (list [bool true]) (list [int 1])) ∧
    ¬((list [text "A"]).matchesValue false (list [text "a"]) = true ↔
      StrictlyEqual false (list [text "A"]) (list [text "a"])) := by
  constructor
  · intro h
    have hstrict := h.1 (by decide)
    have hleaf := hstrict.leaves (bool true) (int 1) (.within (List.mem_singleton_self _) .here) rfl rfl
    cases hleaf.1
  · intro h
    have hcase : foldCase false "A" = foldCase false "a" := by decide +kernel
    have hstrict : StrictlyEqual false (list [text "A"]) (list [text "a"]) := by
      constructor
      · exact forall_correspond_list.2
          ⟨rfl, List.forall_mem_singleton.2 ((forall_correspond_of_isLeaf rfl).2 ⟨rfl, rfl⟩)⟩
      · exact forall_correspond_list.2
          ⟨nofun, List.forall_mem_singleton.2 ((forall_correspond_of_isLeaf rfl).2 fun _ _ => hcase)⟩
    cases h.2 hstrict

end Winnow.Value
