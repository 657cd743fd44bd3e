import Winnow.Yaml.Token
import Winnow.Number.Read
import Winnow.Transport.Bytes
/-! # Properties and directives

An anchor names a node, an alias refers to one, and a tag tells a node's type. Directives stand before a
document. Tags are written in full between `<` and `>`, or with a handle such as `!!`. -/

namespace Winnow.Yaml

/-- The name behind `&` or `*`, and the place behind it. -/
def nameAfterMark (p : Place) : Outcome (String × Place) :=
  let (cs, p) := p.next.span isNameChar
  if cs.isEmpty || !(isGap p.head || "?:,]\x7d%@\x60".contains p.head) then badToken
  else .ok (String.ofList cs, p)

/-! ## Tags -/

def isUriChar (c : Char) : Bool := c.isAlphanum || "-;/?:@&=+$,_.!~*'()[]%".contains c

/-- Codes of two digits behind percent signs, which are the bytes of characters. -/
def percentBytes : Nat → Place → Outcome (List UInt8 × Place)
  | 0, p => .ok ([], p)
  | fuel + 1, p =>
    if p.head != '%' then .ok ([], p)
    else
      match (p.next.rest.take 2).mapM fun c => (digitOf? c).filter (· < 16) with
      | some [a, b] => do
        let (more, p) ← percentBytes fuel (p.advance 3)
        return (UInt8.ofNat (a * 16 + b) :: more, p)
      | _ => badToken

/-- The characters of a tag, in which codes stand for characters. -/
def uriChars : Nat → Place → Outcome (List Char × Place)
  | 0, p => .ok ([], p)
  | fuel + 1, p => do
    let (cs, p) := p.span fun c => isUriChar c && c != '%'
    if p.head != '%' then return (cs, p)
    let (bytes, p) ← percentBytes p.steps p
    match Bytes.toText? bytes with
    | some s =>
      let (more, p) ← uriChars fuel p
      return (cs ++ s.toList ++ more, p)
    | none => badToken

/-- A part of a tag, which is not left out. -/
def uri (p : Place) : Outcome (String × Place) := do
  let (cs, q) ← uriChars p.steps p
  if q.index = p.index then badToken else return (String.ofList cs, q)

/-- A handle: `!`, `!!`, or a name between two of them. -/
def handle (p : Place) : Outcome (String × Place) :=
  if p.head != '!' then badToken
  else if p.ahead 1 == ' ' then .ok ("!", p.next)
  else
    let (cs, q) := p.next.span isNameChar
    if q.head != '!' then badToken else .ok (String.ofList ('!' :: cs ++ ['!']), q.next)

/-- The tag at a place. -/
def readTag (p : Place) : Outcome (TagText × Place) := do
  let behind := p.ahead 1
  let (t, p) ←
    if behind == '<' then do
      let (suffix, p) ← uri (p.advance 2)
      if p.head != '>' then badToken
      pure (⟨none, suffix⟩, p.next)
    else if isGap behind then pure (⟨none, "!"⟩, p.next)
    else do
      let word := p.next.rest.takeWhile fun c => !(c == ' ' || isLineEnd c)
      let (name, p) ← if word.contains '!' then handle p else pure ("!", p.next)
      let (suffix, p) ← uri p
      pure (⟨some name, suffix⟩, p)
  if p.head == ' ' || isLineEnd p.head then return (t, p) else badToken

/-! ## Directives -/

/-- A number of a version. -/
def versionPart (p : Place) : Outcome (Nat × Place) :=
  let (digits, p) := p.span Char.isDigit
  if digits.isEmpty then badToken
  else
    match readWhole? 10 digits with
    | some n => .ok (n.toNat, p)
    | none => .error (.fault .badValue)

/-- A place behind which a directive goes on or ends. -/
def endOfPart (p : Place) : Outcome Place := if p.head == ' ' || isLineEnd p.head then .ok p else badToken

/-- The directive at a place, with the rest of its line. -/
def readDirective (p : Place) : Outcome (Directive × Place) := do
  let (name, p) := p.next.span isNameChar
  if name.isEmpty then badToken
  let p ← endOfPart p
  let (d, p) ←
    if name == "YAML".toList then do
      let (major, p) ← versionPart (p.skip (· == ' '))
      if p.head != '.' then badToken
      let (minor, p) ← versionPart p.next
      pure (Directive.version major minor, ← endOfPart p)
    else if name == "TAG".toList then do
      let (name, p) ← handle (p.skip (· == ' '))
      if p.head != ' ' then badToken
      let (meaning, p) ← uri (p.skip (· == ' '))
      pure (Directive.handle name meaning, ← endOfPart p)
    else pure (Directive.reserved, p.skip (!isLineEnd ·))
  return (d, ← restOfLine p)

end Winnow.Yaml
