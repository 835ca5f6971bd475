import JsonEdit.Json.Equality
import JsonEdit.Pointer.Error

/-!
# Looking up a pointer

`select` finds the value that a pointer leads to.  `resolve` finds the same value and
otherwise says which step failed and why.
-/

namespace JsonEdit.Json

/-- The part of a value that a step leads to. -/
def child? : Json → Step → Option Json
  | object members, step => step.asKey?.bind (Members.get? members)
  | array items, .index position => items[position]?
  | _, _ => none

/-- The value that a pointer leads to. -/
def select : Json → Pointer → Option Json
  | node, [] => some node
  | node, step :: rest => (node.child? step).bind fun child => child.select rest

/-- The part of a value that a step leads to, or why it leads nowhere. -/
def follow : Json → Step → Except Pointer.Error Json
  | _, .pastEnd => .error (.pastEnd [.pastEnd])
  | object members, step =>
    match step.asKey?.bind (Members.get? members) with
    | some child => .ok child
    | none => .error (.notFound [step])
  | array items, .index position =>
    match items[position]? with
    | some child => .ok child
    | none => .error (.notFound [.index position])
  | node, step => .error (.typeMismatch [step] node.kind)

/-- The value that a pointer leads to, or where it fails and why. -/
def resolve : Json → Pointer → Except Pointer.Error Json
  | node, [] => .ok node
  | node, step :: rest =>
    match node.follow step with
    | .ok child => (child.resolve rest).mapError (·.below step)
    | .error e => .error e

/-- Whether a pointer leads to a value equal to this one. -/
def test (doc : Json) (p : Pointer) (expected : Json) : Bool :=
  match doc.select p with
  | some value => value.same expected
  | none => false

/-- A pointer is looked up in two parts by looking up the second where the first leads. -/
theorem select_append (node : Json) (p q : Pointer) :
    node.select (p ++ q) = (node.select p).bind fun child => child.select q := by
  induction p generalizing node with
  | nil => rfl
  | cons step rest ih =>
    simp only [List.cons_append, select]
    cases node.child? step with
    | none => rfl
    | some child => exact ih child

end JsonEdit.Json
