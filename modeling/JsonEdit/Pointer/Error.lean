import JsonEdit.Json.Basic
import JsonEdit.Pointer.Basic
import JsonEdit.Text.Quoted

/-!
# What a pointer can meet

Why a place in a document cannot be read or changed.  Each error names its site, the
pointer up to and with the step that failed.  A step reports a site relative to the
value it starts from, and `below` puts the steps in front of it that led there.
-/

namespace JsonEdit.Pointer

/-- Why a place cannot be read or changed. -/
inductive Error where
  /-- There is no such member or item. -/
  | notFound (site : Pointer)
  /-- There is no such member or item on the way to the place of a change. -/
  | missingIntermediate (site : Pointer)
  /-- A change needs an item where the array has none. -/
  | indexOutOfRange (site : Pointer) (index length : Nat)
  /-- The place behind the last item can only be added to. -/
  | pastEnd (site : Pointer)
  /-- The step does not fit the kind of value it starts from. -/
  | typeMismatch (site : Pointer) (found : Json.Kind)
  /-- A value cannot move into itself. -/
  | moveIntoDescendant (source target : Pointer)
deriving DecidableEq

namespace Error

/-- The same error, seen from one step further up. -/
def below (step : Step) : Error → Error
  | notFound site => notFound (step :: site)
  | missingIntermediate site => missingIntermediate (step :: site)
  | indexOutOfRange site index length => indexOutOfRange (step :: site) index length
  | pastEnd site => pastEnd (step :: site)
  | typeMismatch site found => typeMismatch (step :: site) found
  | moveIntoDescendant source target => moveIntoDescendant (step :: source) (step :: target)

/-- A pointer as it is shown in a message. -/
def shown (p : Pointer) : String := Text.quoted (render p)

/-- The message of an error. -/
def message : Error → String
  | notFound site => "NOT_FOUND: no value at " ++ shown site
  | missingIntermediate site => "MISSING_INTERMEDIATE: no value at " ++ shown site
  | indexOutOfRange site index length =>
    "INDEX_OUT_OF_RANGE: index " ++ toString index ++ " at " ++ shown site ++
      " with length " ++ toString length
  | pastEnd site => "INVALID_END_OF_ARRAY: '-' at " ++ shown site
  | typeMismatch site found =>
    "TYPE_MISMATCH: cannot step into " ++ found.name ++ " at " ++ shown site
  | moveIntoDescendant source target =>
    "MOVE_INTO_DESCENDANT: " ++ shown target ++ " is inside " ++ shown source

end Error

end JsonEdit.Pointer
