import JsonEdit.Proofs.Json.Members
import JsonEdit.Proofs.Pointer.Frame
import Mathlib.Data.List.Basic

/-!
# An edit acts on one part

What an edit does to a container depends on one part of it, and the other parts do not
depend on what it does.  This module says so in two ways.

* Parts.  `apply_object` splits an edit at or below a member into what becomes of the value
  of the member, which is computed from that value alone, and `Members.assign`.
  `apply_array` does the same for an edit below an item.
* Places.  To replace the value at a pointer is to put it into a place, where it is found
  (`select_of_replace_eq_ok`): `replace_self` puts back what was there, `replace_replace`
  overwrites what was put, and `apply_of_replace` moves an edit of the new value to the place
  where it stands.
-/

namespace JsonEdit

namespace Edit

/-! ## Parts -/

/-- The value that an edit gives to a place, or none if it takes the place away. -/
def value? : Edit → Option Json
  | add value | replace value => some value
  | remove => none

theorem atMember_eq_assign (edit : Edit) (members : List (String × Json)) (name : String) :
    edit.atMember members name = Members.assign members name edit.value? := by
  cases edit <;> rfl

/-- What becomes of a part that is edited below its own place, if the part is there. -/
def onPart (edit : Edit) (step : Step) (rest : Pointer) : Option Json → Except Pointer.Error Json
  | some child => (edit.apply child rest).mapError (·.below step)
  | none => .error (.missingIntermediate [step])

/-- What becomes of the value of a member that is edited at its place, where the rest of the
pointer is empty, or further down. -/
def onMember (edit : Edit) (step : Step) (rest : Pointer) (old : Option Json) :
    Except Pointer.Error (Option Json) :=
  if rest = [] then .ok edit.value? else (edit.onPart step rest old).map some

/-- An edit at or below a member computes the new value of the member from its old one and
assigns it. -/
theorem apply_object {step : Step} {name : String} (hname : step.asKey? = some name) (edit : Edit)
    (members : List (String × Json)) (rest : Pointer) :
    edit.apply (.object members) (step :: rest) =
      (edit.onMember step rest (Members.get? members name)).map fun value =>
        .object (Members.assign members name value) := by
  cases rest with
  | nil => simp [apply, atStep, hname, atMember_eq_assign, onMember, Except.map]
  | cons next rest =>
    rw [apply]
    cases hget : Members.get? members name with
    | none => simp [intermediate, hname, hget, onMember, onPart, Except.map]
    | some child =>
      simp only [intermediate, hname, hget, onMember, onPart]
      cases edit.apply child (next :: rest) <;> simp [Except.map, withPart, hname, Members.assign]

/-- An edit below an item computes the new item from the old one and sets it. -/
theorem apply_array {i : Nat} (edit : Edit) (items : List Json) {rest : Pointer} (hrest : rest ≠ []) :
    edit.apply (.array items) (.index i :: rest) =
      (edit.onPart (.index i) rest items[i]?).map fun value => .array (items.set i value) := by
  obtain ⟨next, rest, rfl⟩ := List.exists_cons_of_ne_nil hrest
  rw [apply]
  cases hitem : items[i]? with
  | none => simp [intermediate, hitem, onPart, Except.map]
  | some child =>
    simp only [intermediate, hitem, onPart]
    cases edit.apply child (next :: rest) <;> simp [Except.map, withPart]

/-! ## Places -/

open Json

theorem withPart_self {node child : Json} {step : Step} (h : node.child? step = some child) :
    withPart child node step = node := by
  cases node with
  | object members =>
    obtain ⟨name, hname, hget⟩ := exists_name_of_child? h
    simp [withPart, hname, Members.put_eq_self hget]
  | array items =>
    cases step with
    | index i =>
      obtain ⟨hi, rfl⟩ := List.getElem?_eq_some_iff.mp h
      simp [withPart]
    | key name | pastEnd => rfl
  | _ => rfl

@[simp]
theorem withPart_withPart (node child other : Json) (step : Step) :
    withPart other (withPart child node step) step = withPart other node step := by
  cases node with
  | object members => cases hname : step.asKey? <;> simp [withPart, hname]
  | array items => cases step <;> simp [withPart]
  | _ => rfl

end Edit

namespace Json

open Edit

@[simp]
theorem add_nil (doc value : Json) : doc.add [] value = .ok value := rfl

@[simp]
theorem replace_nil (doc value : Json) : doc.replace [] value = .ok value := rfl

@[simp]
theorem remove_nil (doc : Json) : doc.remove [] = .ok null := rfl

/-- The value at a place, from the value that holds the place. -/
theorem select_concat {doc node : Json} {c : Pointer} (hnode : doc.select c = some node)
    (step : Step) : doc.select (c ++ [step]) = node.child? step := by
  rw [select_append, hnode, Option.bind_some, select]
  cases node.child? step <;> rfl

/-- To put back the value at a pointer changes nothing. -/
theorem replace_self {doc node : Json} {p : Pointer} (h : doc.select p = some node) :
    doc.replace p node = .ok doc := by
  induction p generalizing doc with
  | nil =>
    obtain rfl : doc = node := by simpa [select] using h
    rfl
  | cons step rest ih =>
    rw [select, Option.bind_eq_some_iff] at h
    obtain ⟨child, hchild, hrest⟩ := h
    rw [replace_cons hchild, ih hrest, around, withPart_self hchild]

/-- A value that was put into a place is overwritten there as the one before it would be. -/
theorem replace_replace {doc node out value : Json} {p : Pointer} (h : doc.select p = some node)
    (hout : doc.replace p value = .ok out) (other : Json) :
    out.replace p other = doc.replace p other := by
  induction p generalizing doc out with
  | nil => rfl
  | cons step rest ih =>
    rw [select, Option.bind_eq_some_iff] at h
    obtain ⟨child, hchild, hrest⟩ := h
    obtain ⟨changed, hchanged, rfl⟩ := exists_withPart_of_replace_cons hchild hout
    rw [replace_cons (child?_withPart_self hchild changed), replace_cons hchild, ih hrest hchanged]
    cases child.replace rest other <;> simp [around]

/-- After a replacement that succeeds, the pointer leads to the new value. -/
theorem select_of_replace_eq_ok {doc out value : Json} {p : Pointer}
    (h : doc.replace p value = .ok out) : out.select p = some value := by
  obtain rfl | ⟨c, step, rfl⟩ := p.eq_nil_or_concat'
  · obtain rfl : value = out := by simpa using h
    rfl
  · obtain ⟨node, changed, hnode, hchanged, hout⟩ := (apply_append_eq_ok_iff (by simp)).mp h
    have hplace : (changed.child? step) = some value := by
      cases apply_singleton_iff.mp hchanged with
      | replaceMember hname => simp [child?, hname, Members.get?_put_self]
      | replaceItem hi => simp [child?, hi]
    rw [select_of_replace hnode hout, select_cons hplace, select]

/-- An edit below a value that a pointer leads to, with the edited value that it puts into the
place. -/
theorem exists_replace_of_apply_append {edit : Edit} {doc node out : Json} {c p : Pointer}
    (hnode : doc.select c = some node) (hp : p ≠ []) (h : edit.apply doc (c ++ p) = .ok out) :
    ∃ changed, edit.apply node p = .ok changed ∧ doc.replace c changed = .ok out := by
  obtain ⟨node', changed, hnode', hchanged, hout⟩ := (apply_append_eq_ok_iff hp).mp h
  obtain rfl : node = node' := by simpa [hnode] using hnode'
  exact ⟨changed, hchanged, hout⟩

/-- Where a value was put into a place, an edit below the place edits that value and puts
the result into the place. -/
theorem apply_of_replace {doc node out value : Json} {c p : Pointer} (edit : Edit)
    (h : doc.select c = some node) (hout : doc.replace c value = .ok out) (hp : p ≠ []) :
    edit.apply out (c ++ p) =
      match edit.apply value p with
      | .ok changed => doc.replace c changed
      | .error e => .error (e.under c) := by
  rw [apply_append edit (select_of_replace_eq_ok hout) hp]
  cases edit.apply value p with
  | ok changed => exact replace_replace h hout changed
  | error e => rfl

end Json

end JsonEdit
