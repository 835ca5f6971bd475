import JsonEdit.Json.Reader
import JsonEdit.Json.Writer
import JsonEdit.Patch.Run
import JsonEdit.Patch.Wire
import JsonEdit.Text.Blank

/-!
# The two tools

One tool applies a patch to a document, the other looks a pointer up in it.  Both
take the patch or pointer as their argument and the document as their input, and
both write the resulting value in the indented layout.
-/

namespace JsonEdit.Command

/-- Why a tool fails. -/
inductive Error where
  /-- There is no argument. -/
  | usage (text : String)
  /-- The input is not UTF-8. -/
  | inputNotUtf8
  /-- The document or the patch is not a JSON value. -/
  | json (cause : Json.ReadError)
  /-- The patch fails. -/
  | patch (cause : Patch.Error)
  /-- The pointer leads nowhere. -/
  | pointer (cause : Pointer.Error)
  /-- The text of the pointer is refused. -/
  | invalidPointer (cause : Pointer.Invalid)
deriving DecidableEq

/-- The message of an error. -/
def Error.message : Error → String
  | usage text => text
  | inputNotUtf8 => "stream did not contain valid UTF-8"
  | json cause => cause.message
  | patch cause => cause.message
  | pointer cause => cause.message
  | invalidPointer cause => "Invalid pointer: " ++ cause.message

/-- The document text after the patch with this text. -/
def applyPatch (document patch : String) : Except Error String := do
  let doc ← (Json.parse document).mapError .json
  let value ← (Json.parse patch).mapError .json
  let ops ← (Patch.ofJson value).mapError .patch
  let result ← (Patch.applyAll doc ops).mapError .patch
  pure result.pretty

/-- The text of the value that the pointer with this text leads to. -/
def lookupPointer (document pointer : String) : Except Error String := do
  let doc ← (Json.parse document).mapError .json
  let p ← (Pointer.parse pointer).mapError .invalidPointer
  let value ← (doc.resolve p).mapError .pointer
  pure value.pretty

/-- The two tools. -/
inductive Tool where
  | patch
  | pointer
deriving DecidableEq, Repr

/-- What a tool says when its argument is missing. -/
def Tool.usage : Tool → String
  | patch => "First argument must be a JSON patch array."
  | pointer => "First argument must be a JSON Pointer."

/-- What a tool does with a document and its argument. -/
def Tool.action : Tool → String → String → Except Error String
  | patch => applyPatch
  | pointer => lookupPointer

/-- Everything that a tool writes for an argument and an input.  The argument is asked
for first, then the input is read and its white space at both ends removed. -/
def run (tool : Tool) (argument : Option String) (input : ByteArray) : Except Error String :=
  match argument with
  | none => .error (.usage tool.usage)
  | some argument =>
    match String.fromUTF8? input with
    | none => .error .inputNotUtf8
    | some document => (tool.action (Text.trim document) argument).map (· ++ "\n")

/-- What a tool leaves behind: its exit code and what it writes. -/
structure Exit where
  code : UInt32
  output : String
  errors : String
deriving DecidableEq, Repr

/-- The end of a run: the output on success, the message of the error otherwise. -/
def exit (tool : Tool) (argument : Option String) (input : ByteArray) : Exit :=
  match run tool argument input with
  | .ok output => ⟨0, output, ""⟩
  | .error e => ⟨1, "", e.message ++ "\n"⟩

end JsonEdit.Command
