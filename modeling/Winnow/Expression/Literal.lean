import Winnow.Pattern.Wildcard
import Winnow.Value.Basic
/-! # Literals

A scalar that a value is compared with. In texts a leading `!` negates and `%` and `_` are wildcards;
such a literal is matched by a pattern. -/

namespace Winnow

structure Literal where
  /-- the literal as written -/
  raw : Value
  /-- what values are compared with -/
  value : Value
  negated : Bool
  /-- source of the pattern, when there are wildcards -/
  wildcard : Option String
deriving Repr, Inhabited

namespace Literal

def ofText (raw text : String) (negated : Bool) : Literal :=
  ⟨.text raw, .text text, negated,
    if Wildcard.occurs text then some (Wildcard.patternSource text) else none⟩

/-- A literal as a condition. -/
def parse : Value → Literal
  | .text s => ofText s (Wildcard.withoutNegation s) (Wildcard.isNegated s)
  | v => ⟨v, v, false, none⟩

/-- A literal as a member of a list, where `!` has no meaning of its own. -/
def parseMember : Value → Literal
  | .text s => ofText s s false
  | v => ⟨v, v, false, none⟩

end Literal
end Winnow
