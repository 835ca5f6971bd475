import JsonEdit.Pointer.Error
import JsonEdit.Pointer.Strict

/-!
# What can be wrong with a patch

A patch can fail to be one, and one of its operations can fail on the document it
meets.
-/

namespace JsonEdit.Patch

/-- Why a value is not a patch or not an operation. -/
inductive Malformed where
  | patchNotArray
  | operationNotObject
  /-- There is no member with this name. -/
  | missing (member : String)
  /-- The member with this name is not a string. -/
  | notString (member : String)
  /-- No operation has this name. -/
  | unknownOp (name : String)
deriving DecidableEq, Repr

/-- The message of a malformed patch. -/
def Malformed.message : Malformed → String
  | patchNotArray => "patch must be an array"
  | operationNotObject => "operation must be an object"
  | missing member => "missing \"" ++ member ++ "\""
  | notString member => "\"" ++ member ++ "\" must be a string"
  | unknownOp name => "unknown op: " ++ name

/-- Why a patch fails. -/
inductive Error where
  /-- A pointer meets something in the document. -/
  | pointer (cause : Pointer.Error)
  /-- The text of a path is refused. -/
  | invalidPointer (cause : Pointer.Invalid)
  /-- The value at this path is not the expected one. -/
  | testFailed (path : Pointer)
  /-- A value is not a patch or not an operation. -/
  | malformed (cause : Malformed)
deriving DecidableEq

/-- The message of an error. -/
def Error.message : Error → String
  | pointer cause => cause.message
  | invalidPointer cause => "INVALID_POINTER: " ++ cause.message
  | testFailed path => "TEST: value at " ++ Pointer.Error.shown path ++ " does not match"
  | malformed cause => "INVALID_OP: " ++ cause.message

end JsonEdit.Patch
