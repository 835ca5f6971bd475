import JsonEdit.Pointer.Escape
import JsonEdit.Text.Decimal

/-!
# Steps

One step of a pointer leads from a container to one of its parts.  What kind of step
a segment is follows from its text alone: a hyphen is the place behind the last item
of an array, the shortest decimal form of a number below `2 ^ 64` is an index, and
anything else is a name.  In an object an index is the name that its digits spell.

The type of steps admits every natural number as an index.  A step that was read from a
text has one below `2 ^ 64`, and `JsonEdit.Pointer.TextPointer` carries the proof.
-/

namespace JsonEdit

/-- One step of a pointer. -/
inductive Step where
  /-- The item with this index, or the member whose name is its decimal form. -/
  | index (position : Nat)
  /-- The member with this name. -/
  | key (name : String)
  /-- The place behind the last item of an array. -/
  | pastEnd
deriving DecidableEq, Repr

namespace Step

/-- The greatest index, `2 ^ 64 - 1`; a greater number is a name. -/
def greatestIndex : Nat := 0xFFFFFFFFFFFFFFFF

/-- The step that a segment stands for. -/
def classify (segment : List Char) : Step :=
  if segment = ['-'] then pastEnd
  else if Text.isDecimal segment && Text.decimalValue segment ≤ greatestIndex then
    index (Text.decimalValue segment)
  else key (String.ofList (Pointer.unescape segment))

/-- The name of the member that a step leads to in an object; the place behind the
last item has none. -/
def asKey? : Step → Option String
  | index position => some (String.ofList (Text.decimal position))
  | key name => some name
  | pastEnd => none

/-- The segment that is written for a step. -/
def text : Step → List Char
  | index position => Text.decimal position
  | key name => Pointer.escape name.toList
  | pastEnd => ['-']

end Step

end JsonEdit
