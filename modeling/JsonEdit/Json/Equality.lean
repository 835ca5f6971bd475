import JsonEdit.Json.Basic

/-!
# Equality of values

Two values are equal when they stand for the same data: numbers by value within
their kind, arrays item by item, and objects name by name, in whatever order their
members are.
-/

namespace JsonEdit.Json

mutual

/-- Whether two values are equal, the order of members left aside. -/
def same : Json → Json → Bool
  | null, null => true
  | bool a, bool b => a == b
  | number a, number b => a.same b
  | string a, string b => a == b
  | array xs, array ys => sameItems xs ys
  | object ms, object ns => ms.length == ns.length && sameMembers ms ns
  | _, _ => false

/-- Whether two lists of items have the same length and are equal place by place. -/
def sameItems : List Json → List Json → Bool
  | [], [] => true
  | x :: xs, y :: ys => same x y && sameItems xs ys
  | _, _ => false

/-- Whether each member on the left has a member of that name with an equal value on
the right. -/
def sameMembers : List (String × Json) → List (String × Json) → Bool
  | [], _ => true
  | (name, x) :: ms, ns =>
    (match Members.get? ns name with
      | some y => same x y
      | none => false) && sameMembers ms ns

end

/-- Whether two values that were read apart are one and the same: null, booleans and
numbers are told apart by their value only, while every string, array and object has
an identity of its own. -/
def sameAtom (x y : Json) : Bool :=
  match x, y with
  | string _, string _ => false
  | _, _ => x.isScalar && y.isScalar && same x y

end JsonEdit.Json
