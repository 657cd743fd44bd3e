import Winnow.Text.CaseTable
/-! # Letter case

`lowercase` and `uppercase` map whole texts: one letter may become several, and a capital sigma at the
end of a word becomes the final form. ASCII letters are mapped without a table look-up. The simple,
one-to-one partners serve patterns that ignore case. -/

namespace Winnow.Text

def lookupRun (runs : Array CaseRun) (n : Nat) : Nat :=
  (runs.findSome? (·.image? n)).getD n

/-- The one-character lower case partner of a code point. -/
def simpleLower (n : Nat) : Nat :=
  if n < 128 then (if 65 ≤ n ∧ n ≤ 90 then n + 32 else n)
  else if n = 0x130 then 0x69
  else lookupRun lowerRuns n

/-- The one-character upper case partner of a code point. -/
def simpleUpper (n : Nat) : Nat :=
  if n < 128 then (if 97 ≤ n ∧ n ≤ 122 then n - 32 else n) else lookupRun upperRuns n

/-- The code points whose lower case partner is `n`, itself included when it is lower case. -/
def lowerPreimages (n : Nat) : List Nat :=
  (if simpleLower n = n then [n] else []) ++
  (if 97 ≤ n ∧ n ≤ 122 then [n - 32] else []) ++
  (if n = 0x69 then [0x130] else []) ++
  lowerRuns.toList.filterMap (·.preimage? n)

/-- Lower case characters that ignore-case matching identifies with `n`. -/
def siblings (n : Nat) : List Nat := (caseSiblings.lookup n).getD []

/-- Has the code point a partner of the other case? -/
def isCased (n : Nat) : Bool :=
  if n < 128 then (65 ≤ n && n ≤ 90) || (97 ≤ n && n ≤ 122)
  else simpleLower n != n || lookupRun upperRuns n != n || (upperSequences.lookup n).isSome

def upperCodes (n : Nat) : List Nat :=
  if n < 128 then [if 97 ≤ n ∧ n ≤ 122 then n - 32 else n]
  else match upperSequences.lookup n with
    | some codes => codes
    | none => [lookupRun upperRuns n]

def uppercase (s : String) : String :=
  String.ofList (s.toList.flatMap fun c => (upperCodes c.toNat).map Char.ofNat)

def isCaseContext (c : Char) : Bool :=
  if c.toNat < 128 then c.isAlpha else inRanges casedRanges c.toNat

def isCaseIgnorable (c : Char) : Bool :=
  if c.toNat < 128 then c == '\'' || c == '.' || c == ':' || c == '^' || c == '\x60'
  else inRanges caseIgnorableRanges c.toNat

/-- Is the first character that is not ignorable a cased one? -/
def startsCased (cs : List Char) : Bool :=
  match cs.dropWhile isCaseIgnorable with
  | [] => false
  | c :: _ => isCaseContext c

/-- The lower case of one character between the characters before it (nearest first) and after it. -/
def lowerIn (before : List Char) (c : Char) (after : List Char) : List Char :=
  if c.toNat < 128 then [c.toLower]
  else if c = 'Σ' then [if startsCased before && !startsCased after then 'ς' else 'σ']
  else if c = 'İ' then ['i', '\u0307']
  else [Char.ofNat (simpleLower c.toNat)]

/-- Lower case of `rest`, read after `before` (nearest character first). -/
def lowerAfter (before : List Char) : List Char → List Char
  | [] => []
  | c :: rest => lowerIn before c rest ++ lowerAfter (c :: before) rest

def lowercase (s : String) : String := String.ofList (lowerAfter [] s.toList)

end Winnow.Text
