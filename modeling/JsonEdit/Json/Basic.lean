import JsonEdit.Json.Members
import JsonEdit.Number.Basic

/-!
# JSON values

A JSON value, its kind, and the identity of values: two values are the same data
exactly when they agree in every item, every member and the order of members.  The
coarser equality that ignores the order of members is in `JsonEdit.Json.Equality`.

The members of an object are any list of names and values here.  That each name comes
once is proved of every value that was read or edited, and `JsonEdit.Json.Document`
carries the proof.
-/

namespace JsonEdit

/-- A JSON value. -/
inductive Json where
  | null
  | bool (value : Bool)
  | number (value : Number)
  | string (text : String)
  | array (items : List Json)
  | object (members : List (String × Json))

namespace Json

/-- The six kinds of values. -/
inductive Kind where
  | null
  | bool
  | number
  | string
  | array
  | object
deriving DecidableEq, Repr

/-- The name of a kind in messages. -/
def Kind.name : Kind → String
  | null => "null"
  | bool => "boolean"
  | number => "number"
  | string => "string"
  | array => "array"
  | object => "object"

/-- The kind of a value. -/
def kind : Json → Kind
  | null => .null
  | bool _ => .bool
  | number _ => .number
  | string _ => .string
  | array _ => .array
  | object _ => .object

/-- Whether a value has no parts. -/
def isScalar : Json → Bool
  | array _ | object _ => false
  | _ => true

/-- An integer as a value. -/
def ofInt (n : Int) : Json := number (.int n)

/-- The value for a pattern of 64 bits; an infinity or an undefined result has none
among the numbers and becomes null. -/
def ofDoubleBits (bits : Nat) : Json :=
  match Double.ofBits? bits with
  | some x => number (.double x)
  | none => null

/-- A text as a value, and null for none. -/
def ofText? : Option String → Json
  | some s => string s
  | none => null

/-! ## Identity -/

mutual

/-- Whether two values agree in everything, the order of members included. -/
def beq : Json → Json → Bool
  | null, null => true
  | bool a, bool b => a == b
  | number a, number b => a == b
  | string a, string b => a == b
  | array xs, array ys => beqItems xs ys
  | object ms, object ns => beqMembers ms ns
  | _, _ => false

/-- Whether two lists of items agree. -/
def beqItems : List Json → List Json → Bool
  | [], [] => true
  | x :: xs, y :: ys => beq x y && beqItems xs ys
  | _, _ => false

/-- Whether two lists of members agree. -/
def beqMembers : Members Json → Members Json → Bool
  | [], [] => true
  | (name, x) :: ms, (other, y) :: ns => name == other && beq x y && beqMembers ms ns
  | _, _ => false

end

mutual

theorem eq_of_beq : ∀ {x y : Json}, beq x y = true → x = y
  | null, y, h => by cases y <;> simp_all [beq]
  | bool a, y, h => by cases y <;> simp_all [beq]
  | number a, y, h => by cases y <;> simp_all [beq]
  | string a, y, h => by cases y <;> simp_all [beq]
  | array xs, y, h => by
    cases y with
    | array ys =>
      rw [beq] at h
      rw [eq_of_beqItems h]
    | _ => simp [beq] at h
  | object ms, y, h => by
    cases y with
    | object ns =>
      rw [beq] at h
      rw [eq_of_beqMembers h]
    | _ => simp [beq] at h

theorem eq_of_beqItems : ∀ {xs ys : List Json}, beqItems xs ys = true → xs = ys
  | [], ys, h => by cases ys <;> simp_all [beqItems]
  | x :: xs, ys, h => by
    cases ys with
    | nil => simp [beqItems] at h
    | cons y ys =>
      rw [beqItems, Bool.and_eq_true] at h
      rw [eq_of_beq h.1, eq_of_beqItems h.2]

theorem eq_of_beqMembers : ∀ {ms ns : Members Json}, beqMembers ms ns = true → ms = ns
  | [], ns, h => by cases ns <;> simp_all [beqMembers]
  | (name, x) :: ms, ns, h => by
    cases ns with
    | nil => simp [beqMembers] at h
    | cons n ns =>
      obtain ⟨other, y⟩ := n
      simp only [beqMembers, Bool.and_eq_true, beq_iff_eq] at h
      rw [h.1.1, eq_of_beq h.1.2, eq_of_beqMembers h.2]

end

mutual

theorem beq_self : ∀ x : Json, beq x x = true
  | null => rfl
  | bool a => by simp [beq]
  | number a => by simp [beq]
  | string a => by simp [beq]
  | array xs => by simp [beq, beqItems_self xs]
  | object ms => by simp [beq, beqMembers_self ms]

theorem beqItems_self : ∀ xs : List Json, beqItems xs xs = true
  | [] => rfl
  | x :: xs => by simp [beqItems, beq_self x, beqItems_self xs]

theorem beqMembers_self : ∀ ms : Members Json, beqMembers ms ms = true
  | [] => rfl
  | (name, x) :: ms => by simp [beqMembers, beq_self x, beqMembers_self ms]

end

instance : DecidableEq Json := fun x y =>
  decidable_of_iff (beq x y = true) ⟨eq_of_beq, fun h => h ▸ beq_self x⟩

end Json

end JsonEdit
