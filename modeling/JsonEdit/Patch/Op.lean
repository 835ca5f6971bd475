import JsonEdit.Json.Basic
import JsonEdit.Pointer.Basic

/-!
# Operations

The six operations of a patch.  Each has the path of its target; adding, replacing
and testing have a value, copying and moving have the path of a source.
-/

namespace JsonEdit

/-- An operation of a patch. -/
inductive Op where
  | add (path : Pointer) (value : Json)
  | remove (path : Pointer)
  | replace (path : Pointer) (value : Json)
  | copy (path source : Pointer)
  | move (path source : Pointer)
  | test (path : Pointer) (value : Json)
deriving DecidableEq

namespace Op

/-- The name of an operation. -/
def name : Op → String
  | add _ _ => "add"
  | remove _ => "remove"
  | replace _ _ => "replace"
  | copy _ _ => "copy"
  | move _ _ => "move"
  | test _ _ => "test"

/-- The path of the target. -/
def path : Op → Pointer
  | add path _ | remove path | replace path _ | copy path _ | move path _ | test path _ => path

/-- The path of the source, for an operation that has one. -/
def source? : Op → Option Pointer
  | copy _ source | move _ source => some source
  | _ => none

/-- Whether an operation only asks a question. -/
def isPredicate : Op → Bool
  | test _ _ => true
  | _ => false

end Op

end JsonEdit
