import Winnow.Text.Quoted
/-! # Patterns

A pattern is its source text and its flag bits. The bits are those of the transport formats; flags that
are negative have all bits beyond the named ones. -/

namespace Winnow

structure Pattern where
  source : String
  flags : Int
deriving DecidableEq, Repr, Inhabited

namespace Pattern

/-- Refuses repetitions. -/
def template : Nat := 1
def ignoreCase : Nat := 2
def locale : Nat := 4
def multiline : Nat := 8
def dotAll : Nat := 16
def unicode : Nat := 32
def verbose : Nat := 64
def ascii : Nat := 256

/-- Is the flag, a power of two, set? -/
def hasFlag (flags : Int) (flag : Nat) : Bool := flags / flag % 2 == 1

def setFlag (flags : Int) (flag : Nat) : Int := if hasFlag flags flag then flags else flags + flag

def clearFlag (flags : Int) (flag : Nat) : Int := if hasFlag flags flag then flags - flag else flags

/-- Names of the flags that a literal shows, in the order it shows them. -/
def flagNames : List (Nat × String) :=
  [(1, "TEMPLATE"), (2, "IGNORECASE"), (4, "LOCALE"), (8, "MULTILINE"), (16, "DOTALL"), (32, "UNICODE"),
   (64, "VERBOSE"), (128, "DEBUG"), (256, "ASCII")]

/-- The bits beyond the named ones, of thirty-two. -/
def unnamedFlags (flags : Int) : Nat := (flags % Int.pow 2 32).toNat / 512 * 512

/-- The literal of a pattern; the source is cut after two hundred characters. -/
def literal (p : Pattern) : String :=
  let source := String.ofList ((Text.quoted p.source).toList.take 200)
  let flags := if hasFlag p.flags ascii ∨ hasFlag p.flags locale then p.flags
    else clearFlag p.flags unicode
  let named := flagNames.filterMap fun (bit, name) =>
    if hasFlag flags bit then some ("re." ++ name) else none
  let rest := unnamedFlags flags
  let named := if rest = 0 then named
    else named ++ ["0x" ++ String.ofList (Nat.toDigits 16 rest)]
  "re.compile(" ++ source ++ (if named.isEmpty then "" else ", " ++ String.intercalate "|" named) ++ ")"

end Pattern
end Winnow
