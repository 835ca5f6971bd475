import JsonEdit.Json.Items
import JsonEdit.Pointer.Lookup

/-!
# Editing at a pointer

An edit gives a new document, in which only the containers on the way to the edited
place differ.  To add puts a value where a new one can stand; to replace gives a place
a value; to remove takes a place away.  A member of an object is added and replaced
alike, and removing one that is not there changes nothing.  In an array a value is
added in front of the item with the index or behind the last one, and replaced or
removed only where there is an item.
-/

namespace JsonEdit

/-- What happens to the place that a pointer names. -/
inductive Edit where
  | add (value : Json)
  | replace (value : Json)
  | remove
deriving DecidableEq

namespace Edit

/-- What becomes of a whole document. -/
def atRoot : Edit → Json
  | add value | replace value => value
  | remove => .null

/-- What becomes of the members of an object. -/
def atMember (members : List (String × Json)) (name : String) : Edit → List (String × Json)
  | add value | replace value => Members.put members name value
  | remove => Members.erase members name

/-- What becomes of the items of an array, if the index is in range. -/
def atItem? (items : List Json) (position : Nat) : Edit → Option (List Json)
  | add value => Items.insert? items position value
  | replace value => Items.replace? items position value
  | remove => Items.remove? items position

/-- What becomes of a value that is edited at one of its own parts. -/
def atStep (edit : Edit) : Json → Step → Except Pointer.Error Json
  | .object members, step =>
    match step.asKey? with
    | some name => .ok (.object (edit.atMember members name))
    | none => .error (.pastEnd [step])
  | .array items, .index position =>
    match edit.atItem? items position with
    | some changed => .ok (.array changed)
    | none => .error (.indexOutOfRange [.index position] position items.length)
  | .array items, .pastEnd =>
    match edit with
    | add value => .ok (.array (Items.append items value))
    | _ => .error (.pastEnd [.pastEnd])
  | _, .pastEnd => .error (.pastEnd [.pastEnd])
  | node, step => .error (.typeMismatch [step] node.kind)

/-- The part of a value that holds the place of an edit, or why there is none. -/
def intermediate : Json → Step → Except Pointer.Error Json
  | .object members, step =>
    match step.asKey? with
    | none => .error (.pastEnd [step])
    | some name =>
      match Members.get? members name with
      | some child => .ok child
      | none => .error (.missingIntermediate [step])
  | .array items, .index position =>
    match items[position]? with
    | some child => .ok child
    | none => .error (.missingIntermediate [.index position])
  | _, .pastEnd => .error (.pastEnd [.pastEnd])
  | node, step => .error (.typeMismatch [step] node.kind)

/-- A value with another value for the part that a step leads to.  It is only asked for
where `intermediate` has found that part, so the index is in range, and to set an item
there cannot fail as it could elsewhere. -/
def withPart (child : Json) : Json → Step → Json
  | .object members, step =>
    match step.asKey? with
    | some name => .object (Members.put members name child)
    | none => .object members
  | .array items, .index position => .array (items.set position child)
  | node, _ => node

/-- The document after an edit, or where the way to its place fails and why. -/
def apply (edit : Edit) : Json → Pointer → Except Pointer.Error Json
  | _, [] => .ok edit.atRoot
  | node, [step] => edit.atStep node step
  | node, step :: next :: rest =>
    match intermediate node step with
    | .error e => .error e
    | .ok child =>
      match apply edit child (next :: rest) with
      | .ok changed => .ok (withPart changed node step)
      | .error e => .error (e.below step)

end Edit

namespace Json

/-- The document with a value added at a pointer. -/
def add (doc : Json) (p : Pointer) (value : Json) : Except Pointer.Error Json :=
  (Edit.add value).apply doc p

/-- The document with a value put in place of the one at a pointer. -/
def replace (doc : Json) (p : Pointer) (value : Json) : Except Pointer.Error Json :=
  (Edit.replace value).apply doc p

/-- The document without the value at a pointer. -/
def remove (doc : Json) (p : Pointer) : Except Pointer.Error Json := Edit.remove.apply doc p

/-- The document with the value at the source added at the target as well.  A source
that leads nowhere changes nothing. -/
def copy (doc : Json) (source target : Pointer) : Except Pointer.Error Json :=
  match doc.select source with
  | some value => doc.add target value
  | none => .ok doc

/-- The document with the value at the source removed and then added at the target.
A source that leads nowhere changes nothing, and neither does a target that is the
source, so that a member keeps its place. -/
def move (doc : Json) (source target : Pointer) : Except Pointer.Error Json :=
  match doc.select source with
  | none => .ok doc
  | some value =>
    if source = target then .ok doc
    else if target.isBelow source then .error (.moveIntoDescendant source target)
    else
      match doc.remove source with
      | .ok reduced => reduced.add target value
      | .error e => .error e

end Json

end JsonEdit
