import Winnow.Proofs.Outcome
import Winnow.Proofs.Time.IsoText
import Winnow.Proofs.Transport.JsonFloat
import Winnow.Proofs.Value.Parts
/-! # Expressions as JSON texts

The text of a value is read back as the value, but for moments whose offset is less than a second. `ReadsAs`
says of a text that it is read as a value whatever ends it; it holds of words, numbers and quoted texts, and
carries over from items and entries to lists and objects. An object is restored once its entries are read,
so dates, moments and patterns are objects of which `restore` makes what they are. -/

namespace Winnow.Json

/-! ## Where values start -/

def isBlank (c : Char) : Bool := c == ' ' || c == '\t' || c == '\n' || c == '\r'

/-- Is there a first character, which is not passed over and closes no list? -/
def Starts (cs : List Char) : Prop := ∃ c more, cs = c :: more ∧ isBlank c = false ∧ c ≠ ']'

variable {cs rest : List Char} {v w : Value} {fuel : Nat}

theorem skipBlanks_cons {c : Char} (hc : isBlank c = false) : skipBlanks (c :: rest) = c :: rest := by
  rw [skipBlanks, List.dropWhile_cons, if_neg]
  rw [show (c == ' ' || c == '\t' || c == '\n' || c == '\r') = isBlank c from rfl, hc]
  decide

theorem skipBlanks_space : skipBlanks (' ' :: rest) = skipBlanks rest := rfl

theorem Starts.skipBlanks (h : Starts cs) (rest : List Char) : skipBlanks (cs ++ rest) = cs ++ rest := by
  obtain ⟨c, more, rfl, hc, -⟩ := h
  exact skipBlanks_cons hc

theorem Starts.length_pos (h : Starts cs) : 0 < cs.length := by
  obtain ⟨c, more, rfl, -⟩ := h
  exact Nat.succ_pos _

/-- Is the text read as the value, whatever ends it? -/
structure ReadsAs (cs : List Char) (v : Value) : Prop where
  starts : Starts cs
  read : ∀ {fuel : Nat} {rest : List Char}, cs.length < fuel → Ends rest → read fuel (cs ++ rest) = .ok (v, rest)

/-- The characters that a value without parts, other than a text, does not start with. -/
def openers : List Char := [' ', '\t', '\n', '\r', ']', '"', '[', '{']

theorem read_atom {c : Char} (hlist : c ≠ '[') (hobject : c ≠ '{') (more : List Char) :
    read (fuel + 1) (c :: more) = readAtom (c :: more) := by
  simp [read, hlist, hobject]

theorem readsAs_atom {c : Char} {more : List Char} (hc : c ∉ openers)
    (h : readAtom (c :: more) = .ok (v, [])) : ReadsAs (c :: more) v := by
  simp only [openers, List.mem_cons, List.not_mem_nil, or_false, not_or] at hc
  obtain ⟨hspace, htab, hline, hreturn, hclose, hquote, hlist, hobject⟩ := hc
  refine ⟨⟨c, more, rfl, by simp [isBlank, hspace, htab, hline, hreturn], hclose⟩, fun {fuel rest} hfuel hrest => ?_⟩
  obtain ⟨fuel, rfl⟩ : ∃ n, fuel = n + 1 := ⟨fuel - 1, by omega⟩
  rw [List.cons_append, read_atom hlist hobject]
  exact readAtom_append hrest (fun tail heq => hquote (List.cons.inj heq).1) h

theorem not_mem_openers {s : String} (hs : NumberChars s) {c : Char} (hc : c ∈ s.toList) : c ∉ openers := by
  rcases hs c hc with hdigit | hletter
  · intro hmem
    simp only [openers, List.mem_cons, List.not_mem_nil, or_false] at hmem
    rcases hmem with rfl | rfl | rfl | rfl | rfl | rfl | rfl | rfl <;> cases hdigit
  · simp only [List.mem_cons, List.not_mem_nil, or_false] at hletter
    rcases hletter with rfl | rfl | rfl | rfl | rfl | rfl | rfl | rfl | rfl | rfl | rfl | rfl <;> decide

theorem readsAs_number {s : String} (hs : NumberChars s) (h : readAtom s.toList = .ok (v, [])) :
    ReadsAs s.toList v := by
  rcases hcs : s.toList with _ | ⟨c, more⟩
  · rw [hcs] at h
    cases h
  · rw [hcs] at h
    exact readsAs_atom (not_mem_openers hs (hcs ▸ List.mem_cons_self ..)) h

theorem readsAs_int {i : Int} (hi : i.natAbs < 10 ^ maxDigits) : ReadsAs (toString i).toList (.int i) :=
  readsAs_number (numberChars_intText i) (readAtom_int hi)

theorem readsAs_float (f : Float) : ReadsAs (floatText .transport f).toList (.float f) :=
  readsAs_number (numberChars_floatText f) (readAtom_floatText f)

theorem readsAs_quoted (s : String) : ReadsAs (quoted true s).toList (.text s) := by
  rw [toList_quoted]
  refine ⟨⟨_, _, rfl, rfl, by decide⟩, fun {fuel rest} hfuel hrest => ?_⟩
  obtain ⟨fuel, rfl⟩ : ∃ n, fuel = n + 1 := ⟨fuel - 1, by omega⟩
  have hword (tail : List Char) : findWord? ('"' :: tail) = none := rfl
  have htext := readText?_quoted s rest
  rw [List.cons_append, List.append_assoc, List.singleton_append, read_atom (by decide) (by decide), readAtom_eq,
    hword]
  simp only [htext]

/-! ## Lists -/

/-- Texts between commas. -/
def joined (texts : List (List Char)) : List Char := [',', ' '].intercalate texts

theorem joined_cons {texts : List (List Char)} (hne : texts ≠ []) :
    joined (cs :: texts) = cs ++ ',' :: ' ' :: joined texts := by
  obtain ⟨cs', texts, rfl⟩ := List.exists_cons_of_ne_nil hne
  rw [joined, List.intercalate_cons_cons, List.append_assoc]
  rfl

theorem length_le_joined {texts : List (List Char)} (hcs : cs ∈ texts) : cs.length ≤ (joined texts).length := by
  induction texts with
  | nil => cases hcs
  | cons t texts ih =>
    rcases texts with _ | ⟨t', texts⟩
    · obtain rfl := List.mem_singleton.1 hcs
      exact Nat.le_of_eq (by rw [joined, List.intercalate_singleton])
    · rw [joined_cons (by simp), List.length_append, List.length_cons, List.length_cons]
      rcases List.mem_cons.1 hcs with rfl | hcs
      · omega
      · have := ih hcs
        omega

theorem count_le_joined {texts : List (List Char)} (htexts : ∀ cs ∈ texts, 0 < cs.length) :
    texts.length ≤ (joined texts).length := by
  induction texts with
  | nil => exact Nat.zero_le _
  | cons t texts ih =>
    have ht := htexts t (List.mem_cons_self ..)
    rcases texts with _ | ⟨t', texts⟩
    · rw [joined, List.intercalate_singleton]
      exact ht
    · have := ih fun cs hcs => htexts cs (List.mem_cons_of_mem _ hcs)
      simp only [joined_cons (List.cons_ne_nil t' texts), List.length_append, List.length_cons] at this ⊢
      omega

/-- The first of the texts starts what they are joined to. -/
theorem exists_joined_eq (cs : List Char) (texts : List (List Char)) : ∃ more, joined (cs :: texts) = cs ++ more := by
  rcases texts with _ | ⟨t, texts⟩
  · exact ⟨[], by rw [joined, List.intercalate_singleton, List.append_nil]⟩
  · exact ⟨_, joined_cons (by simp)⟩

theorem starts_joined (h : Starts cs) (texts : List (List Char)) : Starts (joined (cs :: texts)) := by
  obtain ⟨more, hmore⟩ := exists_joined_eq cs texts
  obtain ⟨c, tail, rfl, hc⟩ := h
  exact ⟨c, tail ++ more, hmore, hc⟩

def listChars (texts : List (List Char)) : List Char := '[' :: (joined texts ++ [']'])

theorem forall₂_left {texts : List (List Char)} {items : List Value} (h : List.Forall₂ ReadsAs texts items) :
    ∀ t ∈ texts, Starts t := by
  induction h with
  | nil => simp
  | cons hcs _ ih => exact List.forall_mem_cons.2 ⟨hcs.starts, ih⟩

theorem readItems_joined {texts : List (List Char)} {items : List Value} (h : List.Forall₂ ReadsAs texts items)
    (hne : texts ≠ []) (hfuel : ∀ cs ∈ texts, cs.length < fuel) {n : Nat} (hn : texts.length ≤ n) :
    readItems (read fuel) n (joined texts ++ ']' :: rest) = .ok (items, rest) := by
  induction h generalizing n with
  | nil => exact absurd rfl hne
  | @cons cs v texts items hcs htexts ih =>
    obtain ⟨n, rfl⟩ : ∃ m, n = m + 1 := ⟨n - 1, by simp only [List.length_cons] at hn; omega⟩
    have hread {rest : List Char} (hrest : Ends rest) : read fuel (cs ++ rest) = .ok (v, rest) :=
      hcs.read (hfuel cs (List.mem_cons_self ..)) hrest
    cases htexts with
    | nil =>
      have hend : Ends (']' :: rest) := by simp [Ends]
      have hskip : skipBlanks (']' :: rest) = ']' :: rest := skipBlanks_cons rfl
      rw [joined, List.intercalate_singleton, readItems, hread hend]
      simp [hskip]
    | @cons cs' v' texts items hcs' htexts =>
      have hend {more : List Char} : Ends (',' :: more) := by simp [Ends]
      have hskip {more : List Char} : skipBlanks (',' :: more) = ',' :: more := skipBlanks_cons rfl
      have htail := ih (by simp) (fun cs hcs => hfuel cs (List.mem_cons_of_mem _ hcs))
        (Nat.le_of_succ_le_succ hn)
      have hstart := (starts_joined hcs'.starts texts).skipBlanks (']' :: rest)
      rw [joined_cons (by simp), List.append_assoc, readItems, List.cons_append, hread hend]
      simp [hskip, skipBlanks_space, hstart, htail]

theorem read_list {inner : List Char} (h : Starts inner) : read (fuel + 1) ('[' :: (inner ++ rest)) =
    (readItems (read fuel) ((inner ++ rest).length + 1) (inner ++ rest)).map fun p => (.list p.1, p.2) := by
  have hskip := h.skipBlanks rest
  obtain ⟨c, more, rfl, -, hc⟩ := h
  rw [read, hskip]
  split
  · next heq => exact absurd (List.cons.inj heq).1 hc
  · exact Outcome.bind_pure_eq _

theorem readsAs_list {texts : List (List Char)} {items : List Value} (h : List.Forall₂ ReadsAs texts items) :
    ReadsAs (listChars texts) (.list items) := by
  refine ⟨⟨_, _, rfl, rfl, by decide⟩, fun {fuel rest} hfuel hrest => ?_⟩
  obtain ⟨fuel, rfl⟩ : ∃ n, fuel = n + 1 := ⟨fuel - 1, by omega⟩
  have hstarts := forall₂_left h
  rw [listChars, List.cons_append, List.append_assoc, List.singleton_append]
  cases h with
  | nil => rfl
  | @cons cs v texts items hcs htexts =>
    have hlen : (joined (cs :: texts)).length + 1 < fuel := by
      simpa [listChars] using hfuel
    have hcount : (cs :: texts).length ≤ (joined (cs :: texts) ++ ']' :: rest).length + 1 := by
      have := count_le_joined fun t ht => (hstarts t ht).length_pos
      rw [List.length_append]
      omega
    have hshort (t) (ht : t ∈ cs :: texts) : t.length < fuel := by
      have := length_le_joined ht
      omega
    have hitems : readItems (read fuel) _ (joined (cs :: texts) ++ ']' :: rest) = .ok (v :: items, rest) :=
      readItems_joined (.cons hcs htexts) (by simp) hshort hcount
    rw [read_list (starts_joined hcs.starts texts), hitems]
    rfl

/-! ## Objects -/

/-- A key, quoted, and the text of its value. -/
def entryChars (f : String × List Char) : List Char := (quoted true f.1).toList ++ ':' :: ' ' :: f.2

def objectChars (fs : List (String × List Char)) : List Char := '{' :: (joined (fs.map entryChars) ++ ['}'])

/-- Is the entry what the key and the text of the value are read as? -/
def EntryAs (f : String × List Char) (e : Value × Value) : Prop := e.1 = .text f.1 ∧ ReadsAs f.2 e.2

theorem entryChars_eq (f : String × List Char) : entryChars f =
    '"' :: (f.1.toList.flatMap (escapeChar true) ++ '"' :: ':' :: ' ' :: f.2) := by
  simp [entryChars, toList_quoted]

theorem starts_entryChars (f : String × List Char) : Starts (entryChars f) :=
  ⟨'"', _, entryChars_eq f, rfl, by decide⟩

/-- What comes after an entry decides what becomes of it. -/
theorem readEntries_entry {f : String × List Char} {more : List Char} (hf : ReadsAs f.2 v)
    (hlen : f.2.length < fuel) (hmore : Ends more) {n : Nat} {done : List (Value × Value)}
    {r : Outcome (List (Value × Value) × List Char)}
    (hr : (match skipBlanks more with
      | '}' :: rest => .ok (Value.insert done (.text f.1) v, rest)
      | ',' :: rest => readEntries (read fuel) n (Value.insert done (.text f.1) v) (skipBlanks rest)
      | _ => undecodable) = r) :
    readEntries (read fuel) (n + 1) done (entryChars f ++ more) = r := by
  have hkey := readText?_quoted f.1 (':' :: ' ' :: (f.2 ++ more))
  have hcolon (tail : List Char) : skipBlanks (':' :: tail) = ':' :: tail := skipBlanks_cons rfl
  have hvalue := hf.read hlen hmore
  simp only [entryChars_eq, List.cons_append, List.append_assoc, readEntries, hkey, hcolon, skipBlanks_space,
    hf.starts.skipBlanks, hvalue, Outcome.ok_bind, Outcome.pure_eq]
  exact hr

theorem readEntries_joined {fs : List (String × List Char)} {es : List (Value × Value)}
    (h : List.Forall₂ EntryAs fs es) (hne : fs ≠ []) (hfuel : ∀ f ∈ fs, f.2.length < fuel) {n : Nat}
    (hn : fs.length ≤ n) {done : List (Value × Value)} (hkeys : Value.KeysApart (done ++ es)) :
    readEntries (read fuel) n done (joined (fs.map entryChars) ++ '}' :: rest) = .ok (done ++ es, rest) := by
  induction h generalizing n done with
  | nil => exact absurd rfl hne
  | @cons f e fs es hf hfs ih =>
    obtain ⟨n, rfl⟩ : ∃ m, n = m + 1 := ⟨n - 1, by simp only [List.length_cons] at hn; omega⟩
    obtain ⟨k, v⟩ := e
    obtain ⟨rfl, hread⟩ := hf
    have hlen := hfuel f (List.mem_cons_self ..)
    have hnew := hkeys.insert v
    cases hfs with
    | nil =>
      have hend : Ends ('}' :: rest) := by simp [Ends]
      have hskip : skipBlanks ('}' :: rest) = '}' :: rest := skipBlanks_cons rfl
      rw [List.map_cons, List.map_nil, joined, List.intercalate_singleton]
      exact readEntries_entry hread hlen hend (by simp [hskip, hnew])
    | @cons f' e' fs es hf' hfs =>
      have hend {more : List Char} : Ends (',' :: more) := by simp [Ends]
      have hskip {more : List Char} : skipBlanks (',' :: more) = ',' :: more := skipBlanks_cons rfl
      have hkeys : Value.KeysApart ((done ++ [(.text f.1, v)]) ++ (e' :: es)) := by simpa using hkeys
      have htail := ih (by simp) (fun f hf => hfuel f (List.mem_cons_of_mem _ hf)) (Nat.le_of_succ_le_succ hn) hkeys
      have hstart := (starts_joined (starts_entryChars f') (fs.map entryChars)).skipBlanks ('}' :: rest)
      rw [List.map_cons] at htail
      rw [List.map_cons, List.map_cons, joined_cons (by simp), List.append_assoc, List.cons_append]
      exact readEntries_entry hread hlen hend (by simp [hskip, skipBlanks_space, hstart, hnew, htail])

theorem read_object {f : String × List Char} {fs : List (String × List Char)} {es : List (Value × Value)}
    (h : List.Forall₂ EntryAs (f :: fs) es) (hlen : (objectChars (f :: fs)).length < fuel + 1)
    (hkeys : Value.KeysApart es) :
    read (fuel + 1) (objectChars (f :: fs) ++ rest) = (restore es).map fun w => (w, rest) := by
  have hlen : (joined ((f :: fs).map entryChars)).length + 1 < fuel := by
    simpa [objectChars] using hlen
  have hentry (g : String × List Char) (hg : g ∈ f :: fs) : g.2.length < fuel := by
    have hjoined : (entryChars g).length ≤ (joined ((f :: fs).map entryChars)).length :=
      length_le_joined (List.mem_map_of_mem hg)
    simp only [entryChars, List.length_append, List.length_cons] at hjoined
    omega
  have hcount : (f :: fs).length ≤ (joined ((f :: fs).map entryChars) ++ '}' :: rest).length + 1 := by
    have hle := count_le_joined (List.forall_mem_map.2 fun g (_ : g ∈ f :: fs) => (starts_entryChars g).length_pos)
    rw [List.length_map] at hle
    rw [List.length_append]
    omega
  have hentries : readEntries (read fuel) _ [] (joined ((f :: fs).map entryChars) ++ '}' :: rest) = .ok (es, rest) :=
    readEntries_joined h (by simp) hentry hcount hkeys
  have hskip := (starts_joined (starts_entryChars f) (fs.map entryChars)).skipBlanks ('}' :: rest)
  obtain ⟨more, hmore⟩ := exists_joined_eq (entryChars f) (fs.map entryChars)
  rw [objectChars, List.cons_append, List.append_assoc, List.singleton_append, read]
  rw [List.map_cons] at hentries ⊢
  rw [hskip]
  split
  · next heq =>
    rw [hmore, entryChars_eq] at heq
    cases heq
  · rw [hentries]
    exact Outcome.bind_pure_eq _

theorem readsAs_object {fs : List (String × List Char)} {es : List (Value × Value)}
    (h : List.Forall₂ EntryAs fs es) (hkeys : Value.KeysApart es) (hrestore : restore es = .ok w) :
    ReadsAs (objectChars fs) w := by
  refine ⟨⟨_, _, rfl, rfl, by decide⟩, fun {fuel rest} hfuel hrest => ?_⟩
  obtain ⟨fuel, rfl⟩ : ∃ n, fuel = n + 1 := ⟨fuel - 1, by omega⟩
  cases h with
  | nil =>
    obtain rfl := Except.ok.inj hrestore
    rfl
  | cons hf hfs =>
    rw [read_object (.cons hf hfs) hfuel hkeys, hrestore]
    rfl

/-! ## What is written -/

variable {level : Nat} {t : String}

theorem toList_bracketed (level : Nat) (opening closing : String) (texts : List String) :
    (bracketed {} level opening closing texts).toList =
      opening.toList ++ (joined (texts.map String.toList) ++ closing.toList) := by
  simp [bracketed, lineBreak, joined]

theorem mapM_map_ok (ts : List String) : (ts.map (.ok : String → Outcome String)).mapM id = .ok ts := by
  induction ts with
  | nil => rfl
  | cons t ts ih => simp [ih]

theorem eq_map_of_mapM {outs : List (Outcome String)} {ts : List String} (h : outs.mapM id = .ok ts) :
    outs = ts.map .ok := by
  induction outs generalizing ts with
  | nil =>
    obtain rfl := Except.ok.inj h
    rfl
  | cons o outs ih =>
    rw [List.mapM_cons] at h
    obtain ⟨t, ht, h⟩ := Outcome.bind_eq_ok.1 h
    obtain ⟨ts', hts, h⟩ := Outcome.bind_eq_ok.1 h
    obtain rfl := Except.ok.inj h
    rw [List.map_cons, ← ih hts, ← ht, id]

theorem itemsText_map (ts : List String) :
    itemsText {} level (ts.map .ok) = .ok (String.ofList (listChars (ts.map String.toList))) := by
  rcases ts with _ | ⟨t, ts⟩
  · rfl
  · have hlist := toList_bracketed level "[" "]" (t :: ts)
    rw [itemsText, if_neg (by simp), mapM_map_ok]
    show Except.ok (bracketed {} level "[" "]" (t :: ts)) = _
    rw [← String.ofList_toList (s := bracketed {} level "[" "]" (t :: ts)), hlist]
    rfl

/-- A list is written only when all its items are. -/
theorem exists_of_itemsText {outs : List (Outcome String)} (h : itemsText {} level outs = .ok t) :
    ∃ ts : List String, outs = ts.map .ok := by
  unfold itemsText at h
  split at h
  · next hempty => exact ⟨[], List.isEmpty_iff.1 hempty⟩
  · obtain ⟨ts, hts, -⟩ := Outcome.bind_eq_ok.1 h
    exact ⟨ts, eq_map_of_mapM hts⟩

theorem exists_itemsText_iff {outs : List (Outcome String)} :
    (∃ t, itemsText {} level outs = .ok t) ↔ ∀ o ∈ outs, ∃ t, o = .ok t := by
  constructor
  · rintro ⟨t, h⟩ o ho
    obtain ⟨ts, rfl⟩ := exists_of_itemsText h
    obtain ⟨u, -, rfl⟩ := List.mem_map.1 ho
    exact ⟨u, rfl⟩
  · intro h
    obtain ⟨ts, rfl⟩ := exists_map_eq fun o ho => (h o ho).imp fun t ht => ht.symm
    exact ⟨_, itemsText_map ts⟩

/-- An entry of which the value is written. -/
def writtenEntry (f : String × String) : Value × Outcome String := (.text f.1, .ok f.2)

def entryText (f : String × String) : String × List Char := (f.1, f.2.toList)

theorem labelled_map (fs : List (String × String)) : labelled {} (fs.map writtenEntry) =
    .ok (fs.map fun f => quoted true f.1 ++ ": " ++ f.2) := by
  induction fs with
  | nil => rfl
  | cons f fs ih =>
    rw [List.map_cons, writtenEntry, labelled, ih]
    rfl

theorem exists_of_labelled {outs : List (Value × Outcome String)} (hkeys : ∀ o ∈ outs, ∃ k, o.1 = .text k)
    {ts : List String} (h : labelled {} outs = .ok ts) :
    ∃ fs : List (String × String), outs = fs.map writtenEntry := by
  induction outs generalizing ts with
  | nil => exact ⟨[], rfl⟩
  | cons o outs ih =>
    obtain ⟨k, out⟩ := o
    obtain ⟨k, rfl⟩ := hkeys _ (List.mem_cons_self ..)
    obtain ⟨key, hkey, h⟩ := Outcome.bind_eq_ok.1 h
    obtain rfl := Except.ok.inj hkey
    obtain ⟨value, hvalue, h⟩ := Outcome.bind_eq_ok.1 h
    obtain ⟨more, hmore, -⟩ := Outcome.bind_eq_ok.1 h
    obtain ⟨fs, rfl⟩ := ih (fun o ho => hkeys o (List.mem_cons_of_mem _ ho)) hmore
    exact ⟨(k, value) :: fs, by rw [List.map_cons, writtenEntry, ← hvalue]⟩

theorem entriesText_eq {outs : List (Value × Outcome String)} (hne : outs ≠ []) :
    entriesText {} level outs = (labelled {} outs).map (bracketed {} level "\x7b" "\x7d") := by
  rw [entriesText, if_neg (by simpa using hne)]
  show (labelled {} outs >>= fun texts => pure (bracketed {} level "\x7b" "\x7d" texts)) = _
  exact Outcome.bind_pure_eq _

theorem entriesText_map (fs : List (String × String)) : entriesText {} level (fs.map writtenEntry) =
    .ok (String.ofList (objectChars (fs.map entryText))) := by
  rcases fs with _ | ⟨f, fs⟩
  · rfl
  · let texts := (f :: fs).map fun f => quoted true f.1 ++ ": " ++ f.2
    have hobject := toList_bracketed level "\x7b" "\x7d" texts
    have htexts : texts.map String.toList = ((f :: fs).map entryText).map entryChars := by
      simp [texts, entryText, entryChars]
    rw [entriesText_eq (by simp), labelled_map, Outcome.map_ok]
    show Except.ok (bracketed {} level "\x7b" "\x7d" texts) = _
    rw [← String.ofList_toList (s := bracketed {} level "\x7b" "\x7d" texts), hobject, htexts]
    rfl

/-- A mapping is written only when all its values are. -/
theorem exists_of_entriesText {outs : List (Value × Outcome String)} (hkeys : ∀ o ∈ outs, ∃ k, o.1 = .text k)
    (h : entriesText {} level outs = .ok t) : ∃ fs : List (String × String), outs = fs.map writtenEntry := by
  rcases outs with _ | ⟨o, outs⟩
  · exact ⟨[], rfl⟩
  · rw [entriesText_eq (by simp)] at h
    obtain ⟨texts, htexts, -⟩ := Outcome.map_eq_ok.1 h
    exact exists_of_labelled hkeys htexts

/-! ## What entries stand for -/

def isKey (key : String) : Value → Bool
  | .text s => s == key
  | _ => false

def isOneOf (key companion : String) : Value → Bool
  | .text k => k == key || k == companion
  | _ => false

theorem get?_isSome (es : List (Value × Value)) (key : String) :
    (Value.get? es key).isSome = (es.map Prod.fst).any (isKey key) := by
  induction es with
  | nil => rfl
  | cons e es ih =>
    obtain ⟨k, v⟩ := e
    cases k with
    | text s => by_cases hs : s = key <;> simp [Value.get?, isKey, hs, ih]
    | _ => simpa [Value.get?, isKey] using ih

/-- Whether an object is reserved is told by its keys. -/
theorem isReserved_eq (es : List (Value × Value)) (key companion : String) : isReserved es key companion =
    ((es.map Prod.fst).any (isKey key) && (es.map Prod.fst).all (isOneOf key companion)) := by
  rw [← get?_isSome, List.all_map]
  rfl

theorem restore_plain {es : List (Value × Value)} (hdate : isReserved es dateKey dateOnlyKey = false)
    (hpattern : isReserved es patternKey flagsKey = false) : restore es = .ok (.object es) := by
  simp [restore, hdate, hpattern]

theorem restore_moment (m : Moment) : restore [(.text dateKey, .text m.iso)] = .ok (.moment m.readBack) := by
  simp [restore, isReserved, Value.get?, restoreDate, Moment.ofIso?_iso, dateKey, dateOnlyKey]

theorem restore_date (d : Date) :
    restore [(.text dateKey, .text d.iso), (.text dateOnlyKey, .bool true)] = .ok (.date d) := by
  simp [restore, isReserved, Value.get?, restoreDate, Date.ofIso?_iso, dateKey, dateOnlyKey, Value.truth]

theorem restorePattern_text {p : Pattern} (hp : Pattern.restore p.source p.flags = .ok p) :
    restorePattern (.text p.source) (.int p.flags) = .ok (.pattern p) := by
  have htruncate : (Exact.ofInt p.flags).truncate?.getD 0 = p.flags := by rw [Exact.truncate?_ofInt, Option.getD_some]
  simp only [restorePattern, Value.isHashable, Value.number?, htruncate, hp]
  rfl

theorem restore_pattern {p : Pattern} (hp : Pattern.restore p.source p.flags = .ok p) :
    restore [(.text patternKey, .text p.source), (.text flagsKey, .int p.flags)] = .ok (.pattern p) := by
  have htext := restorePattern_text hp
  simp [restore, isReserved, Value.get?, dateKey, dateOnlyKey, patternKey, flagsKey, htext]

/-! ## Round trips -/

/-- Can the value be written as JSON and told from all others, if what occurs in it can? A float is read back
from its print, a pattern is the one that its source and flags make, and mappings have texts for keys, but not
the reserved ones alone. -/
def Portable : Value → Prop
  | .null | .bool _ | .int _ | .text _ | .date _ | .moment _ | .list _ => True
  | .float f => decode (floatText .transport f) = .ok (.float f)
  | .pattern p => Pattern.restore p.source p.flags = .ok p
  | .object entries =>
    (∀ e ∈ entries, ∃ k, e.1 = .text k) ∧ Value.KeysApart entries ∧
      isReserved entries dateKey dateOnlyKey = false ∧ isReserved entries patternKey flagsKey = false
  | _ => False

theorem writeItems_eq (items : List Value) :
    write.writeItems {} level items = items.map (write {} level) := by
  induction items with
  | nil => rfl
  | cons x xs ih => rw [write.writeItems, ih, List.map_cons]

theorem writeEntries_eq (es : List (Value × Value)) :
    write.writeEntries {} level es = es.map fun e => (e.1, write {} level e.2) := by
  induction es with
  | nil => rfl
  | cons e es ih =>
    obtain ⟨k, v⟩ := e
    rw [write.writeEntries, ih, List.map_cons]

theorem natAbs_flags_lt {p : Pattern} (hp : Pattern.restore p.source p.flags = .ok p) :
    p.flags.natAbs < 10 ^ maxDigits := by
  have hmax : Pattern.maxFlags = 2 ^ 31 - 1 := rfl
  have hpow : 10 ^ 10 ≤ 10 ^ maxDigits := Nat.pow_le_pow_right (by decide) (by decide)
  unfold Pattern.restore at hp
  split at hp
  · split at hp
    · cases hp
    · omega
  · cases hp

theorem readsAs_bool (b : Bool) : ReadsAs (if b then "true" else "false").toList (.bool b) := by
  cases b
  · exact readsAs_atom (by decide) rfl
  · exact readsAs_atom (by decide) rfl

/-- Is the entry what the key and the text written for the value are read as? -/
def WrittenAs (f : String × String) (e : Value × Value) : Prop := EntryAs (entryText f) e

theorem writtenAs {key text : String} (h : ReadsAs text.toList v) : WrittenAs (key, text) (.text key, v) := ⟨rfl, h⟩

theorem keysApart_pair {k k' : String} {v v' : Value} (h : k ≠ k') :
    Value.KeysApart [(.text k, v), (.text k', v')] := by
  simp [Value.KeysApart, Value.equal, Value.equalAtoms, h]

theorem readsAs_entriesText {fs : List (String × String)} {es : List (Value × Value)}
    (hfs : List.Forall₂ WrittenAs fs es) (hkeys : Value.KeysApart es)
    (hrestore : restore es = .ok w) (h : entriesText {} level (fs.map writtenEntry) = .ok t) :
    ReadsAs t.toList w := by
  rw [entriesText_map] at h
  obtain rfl := Except.ok.inj h
  rw [String.toList_ofList]
  refine readsAs_object (List.forall₂_map_left_iff.2 hfs) hkeys hrestore

theorem intText_eq_ok {i : Int} : intText i = .ok t ↔ i.natAbs < 10 ^ maxDigits ∧ toString i = t := by
  rw [intText, Nat.pow_eq]
  split
  · next hi => simp [hi]
  · next hi => simp [hi, unencodable]

theorem write_moment (m : Moment) : write {} level (.moment m) =
    entriesText {} level ([(dateKey, quoted true m.iso)].map writtenEntry) := rfl

theorem write_date (d : Date) : write {} level (.date d) =
    entriesText {} level ([(dateKey, quoted true d.iso), (dateOnlyKey, "true")].map writtenEntry) := rfl

theorem write_pattern (p : Pattern) : write {} level (.pattern p) =
    entriesText {} level
      ([(patternKey, quoted true p.source), (flagsKey, toString p.flags)].map writtenEntry) := rfl

theorem readsAs_write (hv : v.Throughout Portable) (h : write {} level v = .ok t) :
    ReadsAs t.toList (v.mapMoments Moment.readBack) := by
  induction v using Value.induction generalizing level t with
  | step v ih =>
    cases v with
    | null =>
      obtain rfl := Except.ok.inj h
      exact readsAs_atom (by decide) rfl
    | bool b =>
      obtain rfl := Except.ok.inj h
      exact readsAs_bool b
    | int i =>
      rw [write] at h
      obtain ⟨hi, rfl⟩ := intText_eq_ok.1 h
      exact readsAs_int hi
    | float f =>
      obtain rfl := Except.ok.inj h
      exact readsAs_float f
    | text s =>
      obtain rfl := Except.ok.inj h
      exact readsAs_quoted s
    | list items =>
      rw [write, writeItems_eq] at h
      obtain ⟨ts, hts⟩ := exists_of_itemsText h
      rw [hts, itemsText_map] at h
      obtain rfl := Except.ok.inj h
      rw [String.toList_ofList, Value.mapMoments_list]
      refine readsAs_list (List.forall₂_map_left_iff.2 (List.forall₂_map_right_iff.2 ?_))
      exact forall₂_of_map_eq hts.symm fun u _ x hx hux => ih x hx (hv.part hx) hux.symm
    | moment m =>
      have hentry : List.Forall₂ WrittenAs [(dateKey, quoted true m.iso)] [(.text dateKey, .text m.iso)] :=
        .cons (writtenAs (readsAs_quoted m.iso)) .nil
      rw [write_moment] at h
      exact readsAs_entriesText hentry (List.pairwise_singleton ..) (restore_moment m) h
    | date d =>
      have hentries : List.Forall₂ WrittenAs [(dateKey, quoted true d.iso), (dateOnlyKey, "true")]
          [(.text dateKey, .text d.iso), (.text dateOnlyKey, .bool true)] :=
        .cons (writtenAs (readsAs_quoted d.iso)) (.cons (writtenAs (readsAs_bool true)) .nil)
      rw [write_date] at h
      exact readsAs_entriesText hentries (keysApart_pair (by decide)) (restore_date d) h
    | pattern p =>
      have hentries : List.Forall₂ WrittenAs [(patternKey, quoted true p.source), (flagsKey, toString p.flags)]
          [(.text patternKey, .text p.source), (.text flagsKey, .int p.flags)] :=
        .cons (writtenAs (readsAs_quoted p.source)) (.cons (writtenAs (readsAs_int (natAbs_flags_lt hv.here))) .nil)
      rw [write_pattern] at h
      exact readsAs_entriesText hentries (keysApart_pair (by decide)) (restore_pattern hv.here) h
    | object entries =>
      obtain ⟨htexts, hkeys, hdate, hpattern⟩ := hv.here
      rw [write, writeEntries_eq] at h
      obtain ⟨fs, hfs⟩ := exists_of_entriesText (List.forall_mem_map.2 htexts) h
      rw [hfs] at h
      -- text keys hold no moments, so the keys stay and with them what the object is
      have hsame : (entries.map fun e => (e.1.mapMoments Moment.readBack, e.2.mapMoments Moment.readBack)).map
          Prod.fst = entries.map Prod.fst := by
        rw [List.map_map]
        refine List.map_congr_left fun e he => ?_
        obtain ⟨k, hk⟩ := htexts e he
        simp [hk, Value.mapMoments]
      rw [isReserved_eq, ← hsame, ← isReserved_eq] at hdate hpattern
      rw [Value.keysApart_iff, ← hsame, ← Value.keysApart_iff] at hkeys
      rw [Value.mapMoments_object]
      refine readsAs_entriesText (List.forall₂_map_right_iff.2 ?_) hkeys (restore_plain hdate hpattern) h
      refine forall₂_of_map_eq hfs.symm fun f _ e he hfe => ?_
      obtain ⟨hkey, hvalue⟩ := Prod.mk.inj hfe
      have hpart := (Value.mem_parts_object he).2
      rw [← hkey]
      exact writtenAs (ih e.2 hpart (hv.part hpart) hvalue.symm)
    | _ => exact hv.here.elim

theorem decode_of_readsAs (h : ReadsAs t.toList v) : decode t = .ok v := by
  have hskip := h.starts.skipBlanks []
  have hvalue := h.read (Nat.lt_succ_self _) (show Ends [] by simp [Ends])
  rw [List.append_nil] at hskip hvalue
  rw [decode, hskip]
  simp only [hvalue]
  rfl

/-- What is written is read back with its moments read back. -/
theorem decode_encode (hv : v.Throughout Portable) (h : encode {} v = .ok t) :
    decode t = .ok (v.mapMoments Moment.readBack) :=
  decode_of_readsAs (readsAs_write hv h)

/-- A float is told from all others by its text. -/
theorem portable_float (f : Float) : Portable (.float f) := decode_of_readsAs (readsAs_float f)

/-! ## When writing fails -/

/-- Can the value be the key of an object? -/
def IsLabel : Value → Prop
  | .null | .bool _ | .int _ | .float _ | .text _ => True
  | _ => False

/-- Has a whole number few enough digits to be written? -/
def Prints (i : Int) : Prop := i.natAbs < 10 ^ maxDigits

/-- Has JSON the value, if it has its parts? -/
def Has : Value → Prop
  | .int i => Prints i
  | .object entries => ∀ e ∈ entries, IsLabel e.1
  | .bytes _ | .span _ | .record _ | .callable _ | .missing | .extension .. | .other .. => False
  | _ => True

theorem exists_intText_iff {i : Int} : (∃ t, intText i = .ok t) ↔ Prints i := by
  simp only [intText_eq_ok, exists_and_left, exists_eq', and_true, Prints]

theorem throughout_has_int {i : Int} : (Value.int i).Throughout Has ↔ Prints i := Value.throughout_atom rfl

theorem keyText_int {i : Int} : keyText {} (.int i) = (intText i).map some := rfl

theorem keyText_iff {k : Value} : (∃ key, keyText {} k = .ok (some key)) ↔ IsLabel k ∧ k.Throughout Has := by
  cases k with
  | int i =>
    rw [keyText_int, throughout_has_int, ← exists_intText_iff]
    simp [Outcome.map_eq_ok, IsLabel]
  | null | bool | text | float => exact iff_of_true ⟨_, rfl⟩ ⟨trivial, (Value.throughout_atom rfl).2 trivial⟩
  | _ =>
    refine iff_of_false ?_ fun h => h.1
    rintro ⟨key, hkey⟩
    cases hkey

/-- No entry is left out. -/
theorem keyText_ne_none {k : Value} : keyText {} k ≠ .ok none := by
  intro h
  cases k with
  | int i =>
    rw [keyText_int] at h
    obtain ⟨t, -, ht⟩ := Outcome.map_eq_ok.1 h
    cases ht
  | _ => cases h

theorem exists_labelled_iff {outs : List (Value × Outcome String)} : (∃ ts, labelled {} outs = .ok ts) ↔
    ∀ o ∈ outs, (∃ key, keyText {} o.1 = .ok (some key)) ∧ ∃ t, o.2 = .ok t := by
  induction outs with
  | nil => simp [labelled]
  | cons o outs ih =>
    obtain ⟨k, out⟩ := o
    rw [List.forall_mem_cons, ← ih, labelled]
    rcases hkey : keyText {} k with f | _ | key
    · simp
    · exact absurd hkey keyText_ne_none
    · simp only [Outcome.ok_bind, Except.ok.injEq, Option.some.injEq, exists_eq', true_and]
      exact Outcome.exists_bind_eq_ok fun value => Outcome.exists_map_eq_ok

theorem exists_entriesText_iff {outs : List (Value × Outcome String)} :
    (∃ t, entriesText {} level outs = .ok t) ↔
      ∀ o ∈ outs, (∃ key, keyText {} o.1 = .ok (some key)) ∧ ∃ t, o.2 = .ok t := by
  rw [← exists_labelled_iff]
  rcases outs with _ | ⟨o, outs⟩
  · exact iff_of_true ⟨_, rfl⟩ ⟨_, rfl⟩
  · rw [entriesText_eq (List.cons_ne_nil _ _), Outcome.exists_map_eq_ok]

/-- A value has a text exactly when JSON has all that occurs in it. -/
theorem exists_write_iff_has : (∃ t, write {} level v = .ok t) ↔ v.Throughout Has := by
  induction v using Value.induction generalizing level with
  | step v ih =>
    have hatom (hp : v.parts = []) (hv : Has v) (h : ∃ t, write {} level v = .ok t) :
        (∃ t, write {} level v = .ok t) ↔ v.Throughout Has := iff_of_true h ((Value.throughout_atom hp).2 hv)
    cases v with
    | null | bool | float | text => exact hatom rfl trivial ⟨_, rfl⟩
    | moment m => exact hatom rfl trivial ⟨_, (write_moment m).trans (entriesText_map _)⟩
    | date d => exact hatom rfl trivial ⟨_, (write_date d).trans (entriesText_map _)⟩
    | pattern p => exact hatom rfl trivial ⟨_, (write_pattern p).trans (entriesText_map _)⟩
    | int i => exact exists_intText_iff.trans throughout_has_int.symm
    | list items | tuple items | set items =>
      have hitems : (∃ t, itemsText {} level (items.map (write {} (level + 1))) = .ok t) ↔
          ∀ x ∈ items, x.Throughout Has := by
        rw [exists_itemsText_iff, List.forall_mem_map]
        exact forall₂_congr fun x hx => ih x hx
      rw [Value.throughout_iff, write, writeItems_eq, hitems]
      exact (and_iff_right trivial).symm
    | object entries =>
      rw [Value.throughout_object, write, writeEntries_eq, exists_entriesText_iff, List.forall_mem_map,
        show Has (.object entries) = ∀ e ∈ entries, IsLabel e.1 from rfl, ← forall₂_and]
      refine forall₂_congr fun e he => ?_
      rw [keyText_iff, ih e.2 (Value.mem_parts_object he).2, and_assoc]
    | extension code data =>
      refine iff_of_false (fun h => ?_) Value.Throughout.here
      rw [write, exists_itemsText_iff] at h
      obtain ⟨t, ht⟩ := h _ (List.mem_cons_of_mem _ (List.mem_singleton_self _))
      cases ht
    | _ =>
      refine iff_of_false ?_ Value.Throughout.here
      rintro ⟨t, ht⟩
      cases ht

/-- Are all whole numbers that occur short enough to be written? -/
abbrev IntsPrint : Value → Prop := Value.EveryInt Prints

theorem exists_write_iff (hv : v.Throughout Portable) : (∃ t, write {} level v = .ok t) ↔ IntsPrint v := by
  rw [exists_write_iff_has]
  refine ⟨fun h i hi => h _ hi, fun h w hw => ?_⟩
  have hportable := hv w hw
  cases w with
  | int i => exact h i hw
  | object entries =>
    intro e he
    obtain ⟨k, hk⟩ := hportable.1 e he
    rw [hk]
    trivial
  | bytes | span | record | callable | missing | extension | other => exact hportable.elim
  | _ => trivial

/-- A value is read back from its text exactly when its whole numbers can be printed and its offsets are zero
or at least a second. -/
theorem reads_back_iff (hv : v.Throughout Portable) :
    (∃ t, encode {} v = .ok t ∧ decode t = .ok v) ↔
      (∀ i, (Value.int i).OccursIn v → i.natAbs < 10 ^ maxDigits) ∧
      ∀ m, (Value.moment m).OccursIn v → m.KeepsOffset := by
  have hmoments : v.mapMoments Moment.readBack = v ↔ ∀ m, (Value.moment m).OccursIn v → m.KeepsOffset :=
    Value.mapMoments_eq_self_iff.trans (forall₂_congr fun m _ => Moment.readBack_eq_self_iff)
  have hwritten : (∃ t, encode {} v = .ok t) ↔ IntsPrint v := exists_write_iff hv
  constructor
  · rintro ⟨t, ht, hread⟩
    refine ⟨hwritten.1 ⟨t, ht⟩, hmoments.1 ?_⟩
    rw [decode_encode hv ht] at hread
    exact Except.ok.inj hread
  · rintro ⟨hints, hoffsets⟩
    obtain ⟨t, ht⟩ := hwritten.2 hints
    exact ⟨t, ht, by rw [decode_encode hv ht, hmoments.2 hoffsets]⟩

def oneAndAHalf : Float := Float.ofBits 0x3ff8000000000000

/-- A list of a number, a float and a moment with an offset of some hours. -/
def sample : Value := .list [.int (-3), .float oneAndAHalf, .moment (.halfPastTwo 19800000000 (by decide))]

theorem sample_reads_back : ∃ t, encode {} sample = .ok t ∧ decode t = .ok sample := by
  have hv : sample.Throughout Portable := by
    refine Value.throughout_list.2 ⟨trivial, fun x hx => ?_⟩
    simp only [List.mem_cons, List.not_mem_nil, or_false] at hx
    rcases hx with rfl | rfl | rfl
    · exact (Value.throughout_atom rfl).2 trivial
    · exact (Value.throughout_atom rfl).2 (portable_float _)
    · exact (Value.throughout_atom rfl).2 trivial
  have hatoms {w : Value} (hw : w.OccursIn sample) (hlist : w ≠ sample) : w ∈ sample.parts := by
    rcases Value.occursIn_iff.1 hw with rfl | ⟨u, hu, hw⟩
    · exact absurd rfl hlist
    · rcases Value.occursIn_iff.1 hw with rfl | ⟨x, hx, -⟩
      · exact hu
      · simp only [sample, Value.parts, List.mem_cons, List.not_mem_nil, or_false] at hu
        rcases hu with rfl | rfl | rfl <;> cases hx
  refine (reads_back_iff hv).2 ⟨fun i hi => ?_, fun m hm => ?_⟩
  · have hmem := hatoms hi (by simp [sample])
    obtain rfl : i = -3 := by simpa [sample, Value.parts] using hmem
    have hpow : 10 ^ 1 ≤ 10 ^ maxDigits := Nat.pow_le_pow_right (by decide) (by decide)
    have hsmall : (-3 : Int).natAbs < 10 ^ 1 := by decide
    exact Nat.lt_of_lt_of_le hsmall hpow
  · have hmem := hatoms hm (by simp [sample])
    obtain rfl : m = .halfPastTwo 19800000000 (by decide) := by simpa [sample, Value.parts] using hmem
    intro offset hoffset
    obtain rfl := Option.some.inj hoffset
    decide

/-- A moment with an offset of five microseconds is not read back as it was written. -/
theorem not_reads_back : ¬ ∃ t, encode {} (.moment (.halfPastTwo 5 (by decide))) = .ok t ∧
    decode t = .ok (.moment (.halfPastTwo 5 (by decide))) := by
  rintro ⟨t, ht, hread⟩
  have hv : (Value.moment (.halfPastTwo 5 (by decide))).Throughout Portable := (Value.throughout_atom rfl).2 trivial
  rw [decode_encode hv ht] at hread
  cases hread

end Winnow.Json
