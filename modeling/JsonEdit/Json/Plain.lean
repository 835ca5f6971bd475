import JsonEdit.Json.Basic

/-!
# Plain values

The form in which values are exchanged with other libraries, the format library among
them.  It has the same six kinds, and its objects are ordered maps of their own.  A
conversion goes through all parts of a value, and puts the members of every object one
after the other into a new one.
-/

namespace JsonEdit

/-- A value outside of this library. -/
inductive PlainJson where
  | null
  | bool (value : Bool)
  | number (value : Number)
  | string (text : String)
  | array (items : List PlainJson)
  | object (members : List (String × PlainJson))

namespace Json

mutual

/-- The plain form of a value. -/
def toPlain : Json → PlainJson
  | null => .null
  | bool b => .bool b
  | number n => .number n
  | string s => .string s
  | array items => .array (toPlainItems items)
  | object members => .object (Members.ofList (toPlainMembers members))

/-- The plain forms of items. -/
def toPlainItems : List Json → List PlainJson
  | [] => []
  | x :: xs => toPlain x :: toPlainItems xs

/-- Members with the plain forms of their values. -/
def toPlainMembers : List (String × Json) → List (String × PlainJson)
  | [] => []
  | (name, x) :: ms => (name, toPlain x) :: toPlainMembers ms

end

mutual

/-- The value of a plain form. -/
def ofPlain : PlainJson → Json
  | .null => null
  | .bool b => bool b
  | .number n => number n
  | .string s => string s
  | .array items => array (ofPlainItems items)
  | .object members => object (Members.ofList (ofPlainMembers members))

/-- The values of plain items. -/
def ofPlainItems : List PlainJson → List Json
  | [] => []
  | x :: xs => ofPlain x :: ofPlainItems xs

/-- Members with the values of their plain forms. -/
def ofPlainMembers : List (String × PlainJson) → List (String × Json)
  | [] => []
  | (name, x) :: ms => (name, ofPlain x) :: ofPlainMembers ms

end

end Json

end JsonEdit
