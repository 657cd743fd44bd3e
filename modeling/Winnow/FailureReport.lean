import Winnow.Failure
import Winnow.Value.Order
/-! # Reports of failures

The failures of this library proper, as mappings for other programs: a name, a code, the message and the
context. Parts of the context that plain JSON cannot hold are given as text. -/

namespace Winnow

/-- Can plain JSON hold the value? -/
def Value.isPlain : Value → Bool
  | null | bool _ | int _ | float _ | text _ => true
  | list items | tuple items => allPlain items
  | object entries => allEntriesPlain entries
  | _ => false
where
  allPlain : List Value → Bool
  | [] => true
  | v :: vs => isPlain v && allPlain vs
  allEntriesPlain : List (Value × Value) → Bool
  | [] => true
  | (k, v) :: es =>
    (match k with
      | null | bool _ | int _ | float _ | text _ => true
      | _ => false) && isPlain v && allEntriesPlain es

/-- Stands for the text of an error that comes from elsewhere. -/
def causeMark : String := "<cause>"

namespace Failure

/-- Name, code and context of a failure of this library. -/
def described? : Failure → Option (String × String × List (String × Value))
  | expression e part path =>
    let context := [("expression", part), ("path", .text path), ("details", .text e.message)]
    some (match e with
      | .tooDeep .. => ("MaxDepthExceededError", "MAX_DEPTH_EXCEEDED", context)
      | _ => ("InvalidExpressionError", "INVALID_EXPRESSION", context))
  | options e option value =>
    some ("InvalidOptionsError", "INVALID_OPTIONS",
      [("option", option), ("value", value), ("details", .text e.message)])
  | transport _ => some ("SerializationError", "SERIALIZATION_ERROR", [])
  | rejected _ => some ("FilterError", "FILTER_ERROR", [])
  | _ => none

/-- Is the text one that quotes a cause? -/
def quotesCause (s : String) : Bool := 1 < (s.splitOn causeMark).length

/-- A part of the context, as text where plain JSON cannot hold it. -/
def contextPart : String × Value → String × Value
  | (name, v) =>
    if name = "details" ∧ quotesCause v.display then (name, .text "")
    else (name, if v.isPlain then v else .text v.literal)

/-- The report of a failure of this library. -/
def report? (f : Failure) : Option Value := do
  let (name, code, context) ← f.described?
  return .ofPairs
    [("name", .text name), ("code", .text code), ("message", .text (f.message?.getD "")),
     ("context", .ofPairs (context.map contextPart))]

end Failure
end Winnow
