import JsonEdit.Patch.Error
import JsonEdit.Patch.Op

/-!
# Patches as values

An operation is an object with the members `op`, `path` and, as its kind needs,
`value` or `from`; a patch is an array of operations.  Other members are ignored, and
so is the order of members.  The parts of an operation are read in a fixed order, and
the first fault is reported.
-/

namespace JsonEdit

namespace Patch

/-- The text of a member, which must be there and be a string. -/
def stringMember (members : List (String × Json)) (name : String) : Except Error String :=
  match Members.get? members name with
  | none => .error (.malformed (.missing name))
  | some (.string text) => .ok text
  | some _ => .error (.malformed (.notString name))

/-- The pointer in a member. -/
def pointerMember (members : List (String × Json)) (name : String) : Except Error Pointer :=
  match stringMember members name with
  | .error e => .error e
  | .ok text => (Pointer.parse text).mapError .invalidPointer

/-- The value of an operation. -/
def valueMember (members : List (String × Json)) : Except Error Json :=
  match Members.get? members "value" with
  | none => .error (.malformed (.missing "value"))
  | some value => .ok value

/-- The name of an operation.  A name that is not a string counts as missing. -/
def opMember (members : List (String × Json)) : Except Error String :=
  match Members.get? members "op" with
  | some (.string name) => .ok name
  | _ => .error (.malformed (.missing "op"))

end Patch

namespace Op

/-- The operation with this name and path, and with what else it needs. -/
def ofMembers (name : String) (path : Pointer) (members : List (String × Json)) :
    Except Patch.Error Op :=
  match name with
  | "add" => (Patch.valueMember members).map (add path)
  | "remove" => .ok (remove path)
  | "replace" => (Patch.valueMember members).map (replace path)
  | "copy" => (Patch.pointerMember members "from").map (copy path)
  | "move" => (Patch.pointerMember members "from").map (move path)
  | "test" => (Patch.valueMember members).map (test path)
  | name => .error (.malformed (.unknownOp name))

/-- The operation that a value stands for. -/
def ofJson : Json → Except Patch.Error Op
  | .object members => do
    let name ← Patch.opMember members
    let path ← Patch.pointerMember members "path"
    ofMembers name path members
  | _ => .error (.malformed .operationNotObject)

/-- The members that only some operations have. -/
def operand : Op → List (String × Json)
  | add _ value | replace _ value | test _ value => [("value", value)]
  | copy _ source | move _ source => [("from", .string source.render)]
  | remove _ => []

/-- The value that stands for an operation. -/
def toJson (op : Op) : Json :=
  .object (("op", .string op.name) :: ("path", .string op.path.render) :: op.operand)

end Op

namespace Patch

/-- The operations that the items of an array stand for. -/
def ofItems : List Json → Except Error (List Op)
  | [] => .ok []
  | item :: rest => do
    let op ← Op.ofJson item
    let ops ← ofItems rest
    pure (op :: ops)

/-- The operations that a value stands for. -/
def ofJson : Json → Except Error (List Op)
  | .array items => ofItems items
  | _ => .error (.malformed .patchNotArray)

/-- The value that stands for a list of operations. -/
def toJson (ops : List Op) : Json := .array (ops.map Op.toJson)

end Patch

end JsonEdit
