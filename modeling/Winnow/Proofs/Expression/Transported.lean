import Winnow.Proofs.Expression.Arrived
import Winnow.Proofs.Matching.Totality
/-! # What the transports keep of a query

A query that is received is accepted as it was sent, and matches the same records, when all values that it
compares with arrive as they are. Lists that are only looked through may be tuples or sets; what is compared as a
whole may not, because a tuple is sent as a list and equals none. -/

namespace Winnow
open Value

variable {functions : Functions} {depth v w : Value} {n : Node}

/-- Is the value accepted, as a query that matches as the tree does, in all circumstances? -/
def AcceptedLike (functions : Functions) (depth : Value) (n : Node) (w : Value) : Prop :=
  ∃ m, validate Table.builtins functions depth w = .ok m ∧
    ∀ (t : Terms) (record : Value), m.matches t Table.builtins record = n.matches t Table.builtins record

theorem acceptedLike_arrived (hv : v.Throughout Keyed) (h : validate Table.builtins functions depth v = .ok n)
    (hn : n.Compares Stays) : AcceptedLike functions depth n v.arrived := by
  obtain ⟨m, hm, hmatches⟩ := validate_arrived hv h hn
  exact ⟨m, hm, fun t record => hmatches t Table.builtins record⟩

section

variable {b : Builtin} {operand : Value}

theorem throughout_testQuery {P : Value → Prop} (htext : ∀ s, P (.text s))
    (hobject : ∀ k ∈ ["f", b.key], ∀ u, P (.object [(.text k, u)])) (ho : operand.Throughout P) :
    (testQuery b operand).Throughout P := by
  have hentry {k : String} {u : Value} (hk : k ∈ ["f", b.key]) (hu : u.Throughout P) :
      (Value.object [(.text k, u)]).Throughout P :=
    throughout_object.2 ⟨hobject k hk u, List.forall_mem_singleton.2 ⟨(throughout_atom rfl).2 (htext k), hu⟩⟩
  exact hentry (List.mem_cons_self ..) (hentry (List.mem_cons_of_mem _ (List.mem_cons_self ..)) ho)

theorem receivable_testQuery (ho : operand.Throughout MessagePack.Receivable) :
    (testQuery b operand).Throughout MessagePack.Receivable := by
  refine throughout_testQuery (fun _ => trivial) (fun k _ u => ?_) ho
  exact ⟨⟨List.forall_mem_singleton.2 rfl, List.pairwise_singleton ..⟩, List.forall_mem_singleton.2 rfl⟩

theorem legible_testQuery (ho : operand.Throughout Json.Legible) :
    (testQuery b operand).Throughout Json.Legible := by
  have hplain : ∀ k ∈ ["f", b.key], k ≠ Json.dateKey ∧ k ≠ Json.patternKey := by
    cases b <;> decide
  refine throughout_testQuery (fun _ => trivial) (fun k hk u => ?_) ho
  obtain ⟨hdate, hpattern⟩ := hplain k hk
  refine ⟨List.forall_mem_singleton.2 ⟨k, rfl⟩, List.pairwise_singleton .., ?_, ?_⟩
  · simp [Json.isReserved, Value.get?, hdate]
  · simp [Json.isReserved, Value.get?, hpattern]

end

/-- A query for the records of which a field is one of two texts, which are given as a tuple. -/
def choiceQuery : Value := testQuery .isIn (.tuple [.text "a", .text "b"])

/-- Does a record match, without regard to case and with no pattern at hand? -/
def Node.answer (n : Node) (record : Value) : Outcome Bool :=
  ((n.matches ⟨false, none, lastNoon, Functions.standard⟩ Table.builtins record).runState
    PatternStore.answer emptyStore).1

/-- What is accepted as a tree that misses a record is not accepted like one that matches it. -/
theorem not_acceptedLike {m : Node} (record : Value) (hm : validate Table.builtins functions depth w = .ok m)
    (hsent : n.answer record = .ok true) (hreceived : m.answer record = .ok false) :
    ¬ AcceptedLike functions depth n w := by
  rintro ⟨m', hm', hmatches⟩
  obtain rfl := Except.ok.inj (hm.symm.trans hm')
  have hsame : m.answer record = n.answer record :=
    congrArg (fun run => (run.runState PatternStore.answer emptyStore).1) (hmatches _ record)
  cases hreceived.symm.trans (hsame.trans hsent)

/-- A query for the records of which a field equals a tuple of one text. -/
def tupleQuery : Value := testQuery .eq (.tuple [.text "a"])

/-- A mapping with a tuple for a key is sent, but what is sent is not received. -/
theorem tupleKey_not_received :
    ∃ b, MessagePack.encode (testQuery .eq (.object [(.tuple [.text "a"], .null)])) = .ok b ∧
      ∀ w, MessagePack.decode b ≠ .ok w :=
  ⟨_, rfl, fun _ hw => nomatch hw⟩

/-- A query for the records of which a field equals a mapping with a truth value for its key. -/
def boolKeyQuery : Value := testQuery .eq (.object [(.bool true, .null)])

/-- In JSON a key that is no text becomes one, and the mapping another. -/
theorem boolKey_not_received : ∃ n text w,
    validate Table.builtins Functions.standard (.int 3) boolKeyQuery = .ok n ∧ Json.encode {} boolKeyQuery = .ok text ∧
    Json.decode text = .ok w ∧ ¬ AcceptedLike Functions.standard (.int 3) n w :=
  ⟨_, "\x7b\"f\": \x7b\"$eq\": \x7b\"true\": null\x7d\x7d\x7d", testQuery .eq (.object [(.text "true", .null)]),
    rfl, rfl, rfl, not_acceptedLike (.ofPairs [("f", .object [(.bool true, .null)])]) rfl rfl rfl⟩

/-- A query for the records of which a field equals a mapping of the shape that dates are written in. -/
def reservedQuery : Value := testQuery .eq (.ofPairs [(Json.dateKey, .text "2024-06-01")])

/-- In JSON a mapping of a reserved shape becomes what the shape stands for. -/
theorem reserved_not_received : ∃ n text w,
    validate Table.builtins Functions.standard (.int 3) reservedQuery = .ok n ∧ Json.encode {} reservedQuery = .ok text ∧
    Json.decode text = .ok w ∧ ¬ AcceptedLike Functions.standard (.int 3) n w :=
  ⟨_, "\x7b\"f\": \x7b\"$eq\": \x7b\"$date\": \"2024-06-01\"\x7d\x7d\x7d",
    testQuery .eq (.moment (.midnight ⟨2024, 6, 1, by decide⟩)), rfl, rfl, rfl,
    not_acceptedLike (.ofPairs [("f", .ofPairs [(Json.dateKey, .text "2024-06-01")])]) rfl rfl rfl⟩

end Winnow
