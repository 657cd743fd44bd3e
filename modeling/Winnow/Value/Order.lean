import Winnow.Value.Basic
/-! # Equality and order of values

Numbers and flags are equal when they denote the same number; lists, tuples, sets, mappings and
objects are compared part by part, mappings and sets without regard to order. Only values of one
kind are ordered: numbers, texts, byte strings, dates, moments, durations, lists, tuples, and sets by
inclusion. -/

namespace Winnow

/-- The four order relations. -/
inductive Relation
  | lt | le | gt | ge
deriving DecidableEq, Repr

def Relation.holds : Relation → Ordering → Bool
  | lt, o => o == .lt
  | le, o => o != .gt
  | gt, o => o == .gt
  | ge, o => o != .lt

namespace Value

/-- Equality of two values without parts, numbers apart. -/
def equalAtoms : Value → Value → Bool
  | null, null | missing, missing => true
  | text a, text b => a == b
  | bytes a, bytes b => a == b
  | date a, date b => decide (a = b)
  | moment a, moment b => a.sameTime b
  | span a, span b => a == b
  | pattern a, pattern b => decide (a = b)
  | callable a, callable b => decide (a = b)
  | extension a x, extension b y => a == b && x == y
  | other a x, other b y => a == b && x == y
  | a, b =>
    match a.number?, b.number? with
    | some x, some y => x.compare y == some .eq
    | _, _ => false

/-- Are two values equal? -/
def equal : Value → Value → Bool
  | list xs, list ys => equalLists xs ys
  | tuple xs, tuple ys => equalLists xs ys
  | set xs, set ys => xs.length == ys.length && allIn xs ys
  | object es, object fs => es.length == fs.length && entriesIn es fs
  | record es, record fs => es.length == fs.length && fieldsIn es fs
  | a, b => equalAtoms a b
termination_by structural a => a
where
  equalLists : List Value → List Value → Bool
  | [], [] => true
  | x :: xs, y :: ys => equal x y && equalLists xs ys
  | _, _ => false
  termination_by structural a => a
  allIn : List Value → List Value → Bool
  | [], _ => true
  | x :: xs, ys => ys.any (equal x ·) && allIn xs ys
  entriesIn : List (Value × Value) → List (Value × Value) → Bool
  | [], _ => true
  | (k, v) :: es, fs =>
    (match fs.find? fun f => equal k f.1 with
      | some f => equal v f.2
      | none => false) && entriesIn es fs
  fieldsIn : List (String × Value) → List (String × Value) → Bool
  | [], _ => true
  | (k, v) :: es, fs =>
    (match fs.find? fun f => k == f.1 with
      | some f => equal v f.2
      | none => false) && fieldsIn es fs
  termination_by structural a => a

/-- Can the value be a key? -/
def isHashable : Value → Bool
  | list _ | set _ | object _ | record _ => false
  | tuple items => allHashable items
  | _ => true
where
  allHashable : List Value → Bool
  | [] => true
  | x :: xs => x.isHashable && allHashable xs

/-- Relation of two values without parts; `none` when they are not ordered. -/
def relateAtoms (r : Relation) : Value → Value → Option Bool
  | text a, text b => some (r.holds (compare a b))
  | bytes a, bytes b => some (r.holds (compare (a.map UInt8.toNat) (b.map UInt8.toNat)))
  | date a, date b => some (r.holds (a.compare b))
  | moment a, moment b => (a.compare b).map r.holds
  | span a, span b => some (r.holds (compare a b))
  | set xs, set ys =>
    let below := xs.all fun x => ys.any (x.equal ·)
    let above := ys.all fun y => xs.any (y.equal ·)
    some (match r with
      | .lt => below && !above
      | .le => below
      | .gt => above && !below
      | .ge => above)
  | a, b =>
    match a.number?, b.number? with
    | some x, some y => some ((x.compare y).any r.holds)
    | _, _ => none

/-- Does the relation hold? `none` when the values are not ordered. Lists and tuples are ordered by
their first unequal items, else by length. -/
def relate? (r : Relation) : Value → Value → Option Bool
  | list xs, list ys => relateLists xs ys
  | tuple xs, tuple ys => relateLists xs ys
  | a, b => relateAtoms r a b
where
  relateLists : List Value → List Value → Option Bool
  | [], ys => some (r.holds (compare 0 ys.length))
  | _ :: _, [] => some (r.holds .gt)
  | x :: xs, y :: ys => if equal x y then relateLists xs ys else relate? r x y

/-- Entry of a mapping under a key. -/
def find? (entries : List (Value × Value)) (key : Value) : Option Value :=
  (entries.find? fun e => e.1.equal key).map (·.2)

/-- Entry of a mapping under a text key. -/
def get? (entries : List (Value × Value)) (key : String) : Option Value :=
  match entries with
  | [] => none
  | (text k, v) :: rest => if k = key then some v else get? rest key
  | _ :: rest => get? rest key

/-- Sets an entry: an equal key keeps its place and takes the new value. -/
def insert (entries : List (Value × Value)) (key value : Value) : List (Value × Value) :=
  match entries with
  | [] => [(key, value)]
  | (k, v) :: rest => if k.equal key then (k, value) :: rest else (k, v) :: insert rest key value

/-- Sets the entries of `more` one after the other. -/
def update (entries more : List (Value × Value)) : List (Value × Value) :=
  more.foldl (fun es e => insert es e.1 e.2) entries

def ofEntries (entries : List (Value × Value)) : Value := object (update [] entries)

def ofPairs (pairs : List (String × Value)) : Value := object (pairs.map fun (k, v) => (text k, v))

/-- Adds an item to a set's items unless an equal one is there. -/
def insertItem (items : List Value) (item : Value) : List Value :=
  if items.any (item.equal ·) then items else items ++ [item]

end Value
end Winnow
