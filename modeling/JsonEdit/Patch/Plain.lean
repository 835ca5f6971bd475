import JsonEdit.Json.Plain
import JsonEdit.Patch.Error
import JsonEdit.Patch.Op

/-!
# Patches as plain values

The same form of operations and patches as in `JsonEdit.Patch.Wire`, exchanged as plain values.
Only the value of an operation is converted: names and pointers are read from the plain members
as they are, and an operation is written by putting its members into a new plain object.
-/

namespace JsonEdit

/-- The text of a plain value that is a string. -/
def PlainJson.text? : PlainJson → Option String
  | .string text => some text
  | _ => none

namespace Patch

/-- The pointer in a plain member. -/
def plainPointer (members : Members PlainJson) (name : String) : Except Error Pointer :=
  match Members.get? members name with
  | none => .error (.malformed (.missing name))
  | some value =>
    match value.text? with
    | none => .error (.malformed (.notString name))
    | some text => (Pointer.parse text).mapError .invalidPointer

/-- The value of an operation, converted from its plain form. -/
def plainValue (members : Members PlainJson) : Except Error Json :=
  match Members.get? members "value" with
  | none => .error (.malformed (.missing "value"))
  | some value => .ok (Json.ofPlain value)

end Patch

namespace Op

/-- The operation with this name and path, and with what else it needs of plain members. -/
def ofPlainMembers (name : String) (path : Pointer) (members : Members PlainJson) :
    Except Patch.Error Op :=
  match name with
  | "add" => (Patch.plainValue members).map (add path)
  | "remove" => .ok (remove path)
  | "replace" => (Patch.plainValue members).map (replace path)
  | "copy" => (Patch.plainPointer members "from").map (copy path)
  | "move" => (Patch.plainPointer members "from").map (move path)
  | "test" => (Patch.plainValue members).map (test path)
  | name => .error (.malformed (.unknownOp name))

/-- The operation that a plain value stands for. -/
def ofPlain : PlainJson → Except Patch.Error Op
  | .object members =>
    match (Members.get? members "op").bind PlainJson.text? with
    | none => .error (.malformed (.missing "op"))
    | some name => do
      let path ← Patch.plainPointer members "path"
      ofPlainMembers name path members
  | _ => .error (.malformed .operationNotObject)

/-- The plain value that stands for an operation. -/
def toPlain : Op → PlainJson
  | add path value => .object (Members.ofList
    [("op", .string "add"), ("path", .string path.render), ("value", value.toPlain)])
  | remove path => .object (Members.ofList
    [("op", .string "remove"), ("path", .string path.render)])
  | replace path value => .object (Members.ofList
    [("op", .string "replace"), ("path", .string path.render), ("value", value.toPlain)])
  | copy path source => .object (Members.ofList
    [("op", .string "copy"), ("path", .string path.render), ("from", .string source.render)])
  | move path source => .object (Members.ofList
    [("op", .string "move"), ("path", .string path.render), ("from", .string source.render)])
  | test path value => .object (Members.ofList
    [("op", .string "test"), ("path", .string path.render), ("value", value.toPlain)])

end Op

namespace Patch

/-- The operations that a plain value stands for. -/
def ofPlain : PlainJson → Except Error (List Op)
  | .array items => items.mapM Op.ofPlain
  | _ => .error (.malformed .patchNotArray)

/-- The plain value that stands for a list of operations. -/
def toPlain (ops : List Op) : PlainJson := .array (ops.map Op.toPlain)

end Patch

end JsonEdit
