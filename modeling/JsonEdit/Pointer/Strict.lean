import JsonEdit.Pointer.Basic
import JsonEdit.Text.Size

/-!
# Strict pointer text

`compile` gives every text a meaning.  Strict reading refuses a text that does not
start with a slash, is too long, has too many steps or has a stray tilde, in this
order, and gives every other text the same meaning.
-/

namespace JsonEdit.Pointer

/-- The bounds of strict reading. -/
structure Limits where
  /-- The greatest size of a text, in UTF-8 bytes. -/
  bytes : Nat := 1024
  /-- The greatest number of steps. -/
  steps : Nat := 256
deriving DecidableEq, Repr

/-- Why a text is refused. -/
inductive Invalid where
  | notAbsolute
  | tooLong
  | tooManySteps
  /-- No zero or one follows the tilde that is this many bytes into the text. -/
  | badEscape (offset : Nat)
deriving DecidableEq, Repr

/-- The message of a refusal. -/
def Invalid.message : Invalid → String
  | notAbsolute => "POINTER_INVALID"
  | tooLong => "POINTER_TOO_LONG"
  | tooManySteps => "Path too long"
  | badEscape offset => "Invalid escape at byte " ++ toString offset

/-- Where the first stray tilde is, in bytes after `offset`. -/
def strayTilde? (offset : Nat) : List Char → Option Nat
  | [] => none
  | '~' :: rest =>
    match rest with
    | '0' :: _ | '1' :: _ => strayTilde? (offset + 1) rest
    | _ => some offset
  | c :: rest => strayTilde? (offset + c.utf8Size) rest

/-- Whether a text is accepted, and if not, why. -/
def validate (limits : Limits) (cs : List Char) : Except Invalid Unit :=
  match cs with
  | [] => .ok ()
  | c :: _ =>
    if c ≠ '/' then .error .notAbsolute
    else if limits.bytes < Text.byteSize cs then .error .tooLong
    else if limits.steps < cs.count '/' then .error .tooManySteps
    else
      match strayTilde? 0 cs with
      | some offset => .error (.badEscape offset)
      | none => .ok ()

/-- The pointer that a text stands for, if the text is accepted. -/
def parseChars (limits : Limits) (cs : List Char) : Except Invalid Pointer :=
  (validate limits cs).map fun _ => compileChars cs

/-- The pointer that a text stands for, if the text is accepted within these limits. -/
def parseWithin (limits : Limits) (s : String) : Except Invalid Pointer :=
  parseChars limits s.toList

/-- The pointer that a text stands for, if the text is accepted. -/
def parse (s : String) : Except Invalid Pointer := parseWithin {} s

end JsonEdit.Pointer
