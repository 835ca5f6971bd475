import JsonEdit.Json.Basic
import JsonEdit.Json.Reader.Numeral
import JsonEdit.Json.Reader.Quotation
import JsonEdit.Text.Size

/-!
# The reading machine

A text is read one character at a time by a machine whose state holds the containers
that are open and what is expected next.  Each character leads to the next state or
shows a fault, so reading ends with the text.  A name that comes again in an object
keeps its place and takes the later value.

The machine is a statement of what the format library is documented to accept, in the
order in which it meets the characters; how that library reads is not modelled.
-/

namespace JsonEdit.Json.Reader

/-- A container that is open, with what has been read of it and waits for a value. -/
inductive Frame where
  /-- An array, with the items read so far, the last one first. -/
  | array (items : List Json)
  /-- An object, with the members read so far and the name of the value. -/
  | object (members : List (String × Json)) (name : String)

/-- What a string that is being read is for. -/
inductive Role where
  /-- A value. -/
  | value
  /-- The name of a member after these. -/
  | name (members : List (String × Json))

/-- A gap between two parts of a text, where white space may stand, named for what must
follow or for what has ended.  The frames are those of the containers around it, the
innermost first. -/
inductive Gap where
  /-- A value must follow. -/
  | value (frames : List Frame)
  /-- An array has been opened. -/
  | arrayStart (frames : List Frame)
  /-- An item must follow, after a comma. -/
  | item (items : List Json) (frames : List Frame)
  /-- An item has ended. -/
  | afterItem (items : List Json) (frames : List Frame)
  /-- An object has been opened. -/
  | objectStart (frames : List Frame)
  /-- A member must follow, after a comma. -/
  | member (members : List (String × Json)) (frames : List Frame)
  /-- A name has ended. -/
  | afterName (members : List (String × Json)) (name : String) (frames : List Frame)
  /-- A member has ended. -/
  | afterMember (members : List (String × Json)) (frames : List Frame)
  /-- The value of the whole text has ended. -/
  | done (value : Json)

/-- What has been read and what may follow. -/
inductive State where
  /-- Nothing has begun since the last part. -/
  | gap (gap : Gap)
  /-- A letter must follow, then the others, to complete a literal. -/
  | literal (letter : Char) (letters : List Char) (value : Json) (frames : List Frame)
  /-- A number is being read. -/
  | number (numeral : Numeral) (frames : List Frame)
  /-- A string is being read. -/
  | string (quotation : Quotation) (role : Role) (frames : List Frame)

/-- The white space of JSON. -/
def isSpace (c : Char) : Bool := c == ' ' || c == '\t' || c == '\n' || c == '\r'

/-- The greatest number of containers that may be open. -/
def greatestDepth : Nat := 127

/-- The gap after a value inside these frames. -/
def deliver (value : Json) : List Frame → Gap
  | [] => .done value
  | .array items :: frames => .afterItem (value :: items) frames
  | .object members name :: frames => .afterMember (Members.put members name value) frames

/-- The gap after a string. -/
def Role.close (text : String) (frames : List Frame) : Role → Gap
  | value => deliver (.string text) frames
  | name members => .afterName members text frames

/-- Opens a container inside these frames. -/
def opening (frames : List Frame) (gap : Gap) : Except Refusal State :=
  if frames.length < greatestDepth then .ok (.gap gap) else refuse .tooDeep

/-- The state after the first character of a value. -/
def begin (c : Char) (frames : List Frame) : Except Refusal State :=
  if c = '"' then .ok (.string (.plain []) .value frames)
  else if c = '[' then opening frames (.arrayStart frames)
  else if c = '\x7b' then opening frames (.objectStart frames)
  else if c = 'n' then .ok (.literal 'u' ['l', 'l'] .null frames)
  else if c = 't' then .ok (.literal 'r' ['u', 'e'] (.bool true) frames)
  else if c = 'f' then .ok (.literal 'a' ['l', 's', 'e'] (.bool false) frames)
  else
    match Numeral.start? c with
    | some numeral => .ok (.number numeral frames)
    | none => refuse .notValue

/-- The state after a character in a gap that is not white space. -/
def across (c : Char) : Gap → Except Refusal State
  | .value frames => begin c frames
  | .arrayStart frames =>
    if c = ']' then .ok (.gap (deliver (.array []) frames)) else begin c (.array [] :: frames)
  | .item items frames =>
    if c = ']' then refuse .trailingComma else begin c (.array items :: frames)
  | .afterItem items frames =>
    if c = ',' then .ok (.gap (.item items frames))
    else if c = ']' then .ok (.gap (deliver (.array items.reverse) frames))
    else refuse .noCommaInArray
  | .objectStart frames =>
    if c = '"' then .ok (.string (.plain []) (.name []) frames)
    else if c = '\x7d' then .ok (.gap (deliver (.object []) frames))
    else refuse .nameNotString
  | .member members frames =>
    if c = '"' then .ok (.string (.plain []) (.name members) frames)
    else if c = '\x7d' then refuse .trailingComma
    else refuse .nameNotString
  | .afterName members name frames =>
    if c = ':' then .ok (.gap (.value (.object members name :: frames))) else refuse .noColon
  | .afterMember members frames =>
    if c = ',' then .ok (.gap (.member members frames))
    else if c = '\x7d' then .ok (.gap (deliver (.object members) frames))
    else refuse .noCommaInObject
  | .done _ => refuse .trailingCharacters

/-- The state after a character in a gap. -/
def stepGap (c : Char) (gap : Gap) : Except Refusal State :=
  if isSpace c then .ok (.gap gap) else across c gap

/-- The state after the next character.  The character after a number shows that the
number has ended, and stands in the gap behind it. -/
def step (c : Char) : State → Except Refusal State
  | .gap gap => stepGap c gap
  | .literal letter letters value frames =>
    if c = letter then
      match letters with
      | [] => .ok (.gap (deliver value frames))
      | next :: others => .ok (.literal next others value frames)
    else refuse .notLiteral
  | .number numeral frames =>
    match numeral.take? c with
    | some (.ok longer) => .ok (.number longer frames)
    | some (.error refusal) => .error refusal
    | none =>
      match numeral.finish with
      | .ok n => stepGap c (deliver (.number n) frames)
      | .error fault => .error ⟨fault, 0⟩
  | .string quotation role frames =>
    match quotation.take c with
    | .ok (.more longer) => .ok (.string longer role frames)
    | .ok (.closed text) => .ok (.gap (role.close text frames))
    | .error refusal => .error refusal

/-- The value at the end of the text, or what is missing there. -/
def finishGap : Gap → Except Fault Json
  | .done value => .ok value
  | .value _ | .item _ _ | .member _ _ => .error .endInValue
  | .arrayStart _ | .afterItem _ _ => .error .endInArray
  | .objectStart _ | .afterName _ _ _ | .afterMember _ _ => .error .endInObject

/-- The value at the end of the text, or what is missing there. -/
def finish : State → Except Fault Json
  | .gap gap => finishGap gap
  | .literal _ _ _ _ => .error .endInValue
  | .number numeral frames =>
    match numeral.finish with
    | .ok n => finishGap (deliver (.number n) frames)
    | .error fault => .error fault
  | .string _ _ _ => .error .endInString

/-- A fault, with the number of bytes of the text behind the place that is reported. -/
structure Failure where
  fault : Fault
  behind : Nat
deriving DecidableEq, Repr

/-- Reads a text to its end. -/
def run : State → List Char → Except Failure Json
  | state, [] => (finish state).mapError fun fault => ⟨fault, 0⟩
  | state, c :: rest =>
    match step c state with
    | .ok next => run next rest
    | .error refusal => .error ⟨refusal.fault, Text.byteSize (c :: rest) - refusal.ahead⟩

/-- White space in a gap changes nothing. -/
theorem run_space {c : Char} (hspace : isSpace c = true) (gap : Gap) (rest : List Char) :
    run (.gap gap) (c :: rest) = run (.gap gap) rest := by
  simp [run, step, stepGap, hspace]

end JsonEdit.Json.Reader
