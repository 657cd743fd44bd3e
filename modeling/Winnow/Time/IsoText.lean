import Winnow.Time.Moment
/-! # ISO 8601 text

Days are written `YYYY-MM-DD` and moments with a separator, seconds, microseconds where there are
any, and the offset where there is one. Reading also accepts the basic forms without separators,
week dates, shortened times, a decimal comma and `Z`. -/

namespace Winnow

/-- A number padded with zeros to a width. -/
def padded (width n : Nat) : String :=
  let digits := toString n
  String.ofList (List.replicate (width - digits.length) '0') ++ digits

def Date.iso (d : Date) : String := s!"{padded 4 d.year}-{padded 2 d.month}-{padded 2 d.day}"

/-- `+HH:MM`, with seconds and microseconds when they are not zero. -/
def offsetText (offset : Int) : String :=
  let n := offset.natAbs
  let seconds := n / 1000000 % 60
  let micros := n % 1000000
  (if offset < 0 then "-" else "+") ++ padded 2 (n / 3600000000) ++ ":" ++ padded 2 (n / 60000000 % 60)
    ++ (if seconds ≠ 0 ∨ micros ≠ 0 then ":" ++ padded 2 seconds else "")
    ++ (if micros ≠ 0 then "." ++ padded 6 micros else "")

namespace Moment

def isoWith (separator : String) (m : Moment) : String :=
  m.date.iso ++ separator ++ padded 2 m.hour ++ ":" ++ padded 2 m.minute ++ ":" ++ padded 2 m.second
    ++ (if m.micro ≠ 0 then "." ++ padded 6 m.micro else "")
    ++ (match m.offset with
      | some offset => offsetText offset
      | none => "")

def iso (m : Moment) : String := m.isoWith "T"

end Moment

namespace IsoText

/-- A fixed number of digits and what follows them. -/
def number? : Nat → List Char → Option (Nat × List Char)
  | 0, cs => some (0, cs)
  | n + 1, c :: cs =>
    if c.isDigit then
      (number? n cs).map fun (value, rest) => ((c.toNat - 48) * Nat.pow 10 n + value, rest)
    else none
  | _ + 1, [] => none

/-- The Monday of the first week of a year: the week with the first Thursday. -/
def firstMonday (year : Nat) : Int :=
  let first : Int := daysBeforeYear year + 1
  let weekday := (first + 6) % 7
  let monday := first - weekday
  if weekday > 3 then monday + 7 else monday

/-- The day of a week date. -/
def ofWeek? (year week day : Nat) : Option Date :=
  let weekday := (daysBeforeYear year + 7) % 7
  let longYear := weekday = 3 ∨ (weekday = 2 ∧ isLeap year)
  if year = 0 ∨ week = 0 ∨ 53 < week ∨ (week = 53 ∧ ¬longYear) ∨ day = 0 ∨ 7 < day then none
  else Date.ofOrdinal? (firstMonday year + ((week : Int) - 1) * 7 + day - 1)

/-- The day at the start of a text. -/
def readDay? (cs : List Char) : Option Date := do
  let (year, cs) ← number? 4 cs
  let (dashed, cs) := match cs with
    | '-' :: rest => (true, rest)
    | rest => (false, rest)
  match cs with
  | 'W' :: rest =>
    let (week, rest) ← number? 2 rest
    match dashed, rest with
    | _, [] => ofWeek? year week 1
    | true, '-' :: rest =>
      let (day, _) ← number? 1 rest
      ofWeek? year week day
    | true, _ => none
    | false, rest =>
      let (day, _) ← number? 1 rest
      ofWeek? year week day
  | rest =>
    let (month, rest) ← number? 2 rest
    let rest ← if dashed then (match rest with
      | '-' :: r => some r
      | _ => none) else some rest
    let (day, _) ← number? 2 rest
    Date.make? year month day

/-- Hours, minutes, seconds and microseconds. -/
structure Clock where
  hour : Nat := 0
  minute : Nat := 0
  second : Nat := 0
  micro : Nat := 0

/-- Is nothing left to read? A NUL ends a text. -/
def isOver (cs : List Char) : Bool := cs.head?.all (· == '\x00')

/-- Up to six digits of a fraction of a second; further digits are dropped, and so is anything else
where an offset `follows`. -/
def readFraction? (follows : Bool) (cs : List Char) : Option Nat := do
  let (value, rest) ← number? (min cs.length 6) cs
  if follows ∨ isOver (rest.dropWhile Char.isDigit) then some (value * Nat.pow 10 (6 - min cs.length 6)) else none

/-- What stands after the last full pair of digits: nothing, one stray character, or the digits of a
fraction. -/
inductive Remainder
  | nothing
  | stray (c : Char)
  | fraction (digits : List Char)

/-- Reads the parts that follow the hour: `parts` of minute and second are still allowed. -/
def readParts? (separated : Bool) :
    Nat → List Nat → List Char → Option (List Nat × Remainder)
  | _, found, [] => some (found, .nothing)
  | _, found, [c] => some (found, .stray c)
  | 0, found, c :: rest =>
    if separated ∧ c = ':' ∨ c = '.' ∨ c = ',' then some (found, .fraction rest)
    else if separated then none
    else some (found, .fraction (c :: rest))
  | parts + 1, found, c :: rest =>
    if separated ∧ c = ':' then do
      let (n, rest) ← number? 2 rest
      readParts? separated parts (found ++ [n]) rest
    else if c = '.' ∨ c = ',' then some (found, .fraction rest)
    else if separated then none
    else do
      let (n, rest) ← number? 2 (c :: rest)
      readParts? separated parts (found ++ [n]) rest

/-- `HH[:MM[:SS[.ffffff]]]` or the same without colons. A stray last character of ASCII is tolerated only
where something `follows`. -/
def readClock? (follows : Bool) (cs : List Char) : Option Clock := do
  let (hour, rest) ← number? 2 cs
  let separated := match rest with
    | ':' :: _ => true
    | _ => false
  let (parts, remainder) ← readParts? separated 2 [] rest
  let micro ← match remainder with
    | .nothing => some 0
    | .stray c => if isOver [c] ∨ (follows ∧ c.toNat < 128) then some 0 else none
    | .fraction digits => readFraction? follows digits
  some ⟨hour, parts[0]?.getD 0, parts[1]?.getD 0, micro⟩

def isOffsetMark (c : Char) : Bool := c == '+' || c == '-' || c == 'Z'

/-- A clock reading with an optional offset. An offset of less than a second is none at all. -/
def readTime? (cs : List Char) : Option (Clock × Option Int) := do
  let clock ← readClock? (cs.any isOffsetMark) (cs.takeWhile (!isOffsetMark ·))
  match cs.dropWhile (!isOffsetMark ·) with
  | [] => some (clock, none)
  | 'Z' :: rest => if isOver rest then some (clock, some 0) else none
  | sign :: rest =>
    let o ← readClock? false rest
    let seconds : Int := o.hour * hour + o.minute * minute + o.second * second
    let size := if seconds = 0 then 0 else seconds + o.micro
    some (clock, some (if sign = '-' then -size else size))

/-- Length of the day part of a moment's text. -/
def dayLength (cs : List Char) : Nat :=
  let at' (i : Nat) : Char := cs[i]?.getD '\x00'
  if cs.length = 7 then 7
  else if at' 4 = '-' then
    if at' 5 = 'W' then
      if 8 < cs.length ∧ at' 8 = '-' then
        if cs.length = 9 then 0 else if 10 < cs.length ∧ (at' 10).isDigit then 8 else 10
      else 8
    else 10
  else if at' 4 = 'W' then
    let stop := 7 + ((cs.drop 7).takeWhile Char.isDigit).length
    if stop < 9 then stop else if stop % 2 = 0 then 7 else 8
  else 8

end IsoText

/-- A day from its text, which has one of the three lengths of a day's forms. -/
def Date.ofIso? (s : String) : Option Date :=
  let n := s.utf8ByteSize
  if n = 7 ∨ n = 8 ∨ n = 10 then IsoText.readDay? s.toList else none

/-- A moment from its text; a day alone is its midnight. -/
def Moment.ofIso? (s : String) : Option Moment := do
  let cs := s.toList
  guard (7 ≤ cs.length)
  let n := IsoText.dayLength cs
  let date ← IsoText.readDay? (cs.take n)
  match cs.drop n with
  | [] => some (.midnight date)
  | _ :: time =>
    let (clock, offset) ← IsoText.readTime? time
    Moment.make? date clock.hour clock.minute clock.second clock.micro offset

end Winnow
