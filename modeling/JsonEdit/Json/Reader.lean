import JsonEdit.Json.Reader.Machine

/-!
# Reading values

The value of a text, or what is wrong with it and where.

The reader, with its machine, its numerals and its strings, restates the documented
behaviour of a text format library that is not part of this one: the grammar, members
in the order of the text, a limit of 127 open containers, and the places of its errors.
That this behaviour is as stated here is an assumption of the development; nothing in
it is proved of another reader.
-/

namespace JsonEdit.Json

/-- Why a text is not a JSON value, and where that shows. -/
structure ReadError where
  fault : Reader.Fault
  line : Nat
  column : Nat
deriving DecidableEq, Repr

/-- The message of an error. -/
def ReadError.message (e : ReadError) : String :=
  e.fault.message ++ " at line " ++ toString e.line ++ " column " ++ toString e.column

/-- The value of a text. -/
def parseChars (cs : List Char) : Except ReadError Json :=
  (Reader.run (.gap (.value [])) cs).mapError fun failure =>
    let (line, column) := Reader.place 1 0 cs (Text.byteSize cs - failure.behind)
    ⟨failure.fault, line, column⟩

/-- The value of a text. -/
def parse (s : String) : Except ReadError Json := parseChars s.toList

end JsonEdit.Json
