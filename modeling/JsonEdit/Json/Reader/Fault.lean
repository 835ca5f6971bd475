/-!
# Faults of a text

What can be wrong with a text that should be a JSON value, and where.  A place is
given by line and column; the column counts the UTF-8 bytes since the line began,
so it can lie inside a character.  The faults and their texts are those of the format
library that `JsonEdit.Json.Reader` restates.
-/

namespace JsonEdit.Json.Reader

/-- What is wrong with a text. -/
inductive Fault where
  | endInValue
  | endInArray
  | endInObject
  | endInString
  | notLiteral
  | notValue
  | trailingCharacters
  | trailingComma
  | noCommaInArray
  | noCommaInObject
  | noColon
  | nameNotString
  | badNumber
  | badEscape
  | unpairedSurrogate
  | missingSurrogate
  | controlInString
  | numberOutOfRange
  | tooDeep
deriving DecidableEq, Repr

/-- The text of a fault in messages. -/
def Fault.message : Fault → String
  | endInValue => "EOF while parsing a value"
  | endInArray => "EOF while parsing a list"
  | endInObject => "EOF while parsing an object"
  | endInString => "EOF while parsing a string"
  | notLiteral => "expected ident"
  | notValue => "expected value"
  | trailingCharacters => "trailing characters"
  | trailingComma => "trailing comma"
  | noCommaInArray => "expected `,` or `]`"
  | noCommaInObject => "expected `,` or `\x7d`"
  | noColon => "expected `:`"
  | nameNotString => "key must be a string"
  | badNumber => "invalid number"
  | badEscape => "invalid escape"
  | unpairedSurrogate => "lone leading surrogate in hex escape"
  | missingSurrogate => "unexpected end of hex escape"
  | controlInString => "control character (\\u0000-\\u001F) found while parsing a string"
  | numberOutOfRange => "number out of range"
  | tooDeep => "recursion limit exceeded"

/-- A fault found on reading a character, with the number of bytes between the start
of that character and the place that is reported. -/
structure Refusal where
  fault : Fault
  ahead : Nat
deriving DecidableEq, Repr

/-- A fault shown by a character that is wrong itself: the place reported is one byte
after its start. -/
def refuse {α : Type} (fault : Fault) : Except Refusal α := .error ⟨fault, 1⟩

/-- Line and column of the place this many bytes into a text.  Lines count from one,
columns from zero. -/
def place (line column : Nat) : List Char → (bytes : Nat) → Nat × Nat
  | [], _ => (line, column)
  | c :: rest, bytes =>
    if bytes < c.utf8Size then (line, column + bytes)
    else if c = '\n' then place (line + 1) 0 rest (bytes - c.utf8Size)
    else place line (column + c.utf8Size) rest (bytes - c.utf8Size)

end JsonEdit.Json.Reader
