import Winnow.Pattern.Basic
/-! # Wildcards

In a wildcard text `%` stands for any run of characters, `_` for one character, and everything else
for itself; a leading `!` negates. A wildcard text stands for an anchored pattern source. -/

namespace Winnow.Wildcard

def occurs (s : String) : Bool := s.toList.any fun c => c == '%' || c == '_'

def isNegated (s : String) : Bool := s.toList.head? == some '!'

/-- The text after a leading `!`. -/
def withoutNegation (s : String) : String :=
  match s.toList with
  | '!' :: rest => String.ofList rest
  | _ => s

/-- Characters that a pattern source has to escape to mean themselves. -/
def isSpecial (c : Char) : Bool :=
  "()[]\x7b\x7d?*+-|^$\\.&~# \t\n\r\x0b\x0c".toList.contains c

def escapeSpecial (c : Char) : List Char := if isSpecial c then ['\\', c] else [c]

/-- Pattern source of one wildcard character. -/
def charSource (c : Char) : List Char :=
  if c = '%' then ['.', '*'] else if c = '_' then ['.'] else escapeSpecial c

/-- The anchored pattern source of a wildcard text. -/
def patternSource (s : String) : String :=
  String.ofList ('^' :: s.toList.flatMap charSource ++ ['$'])

end Winnow.Wildcard
