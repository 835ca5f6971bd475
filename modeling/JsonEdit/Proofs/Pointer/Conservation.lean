import JsonEdit.Proofs.Json.Scalars
import JsonEdit.Proofs.Pointer.Place

/-!
# No scalar is lost or made

What an edit brings comes into the document, what it displaces goes out, and every other scalar
stays.  An item that is added to an array displaces nothing; everywhere else an edit displaces
what its pointer led to.

There are four groups.

* What goes out.  `Json.displaced` names it for an addition, `Edit.displaced` for every edit.
* Places.  To put a value into a place exchanges it for what was there.
* Edits.  One step is balanced (`scalars_of_lastStep`), and a place is an exchange, so a whole
  edit is balanced.  To remove the root is the exception: it leaves a null that nobody brought.
* Copies and moves, which are made of edits.

`scalars_are_conserved` is the assembly.
-/

namespace JsonEdit

open Json

/-! ## What goes out -/

/-- What makes room for a value that is added at a pointer: nothing in an array, where the items
behind it move up, and otherwise the value that the pointer leads to. -/
def Json.displaced (doc : Json) (p : Pointer) : Option Json :=
  match p.parent?.bind doc.select with
  | some (array _) => none
  | _ => doc.select p

namespace Edit

/-- What an edit takes out of a document. -/
def displaced (doc : Json) (p : Pointer) : Edit → Option Json
  | add _ => doc.displaced p
  | replace _ | remove => doc.select p

/-- Where a value stands in a container, what goes out can be seen in the container. -/
theorem displaced_concat {doc node : Json} {c : Pointer} (hnode : doc.select c = some node)
    (edit : Edit) (step : Step) :
    edit.displaced doc (c ++ [step]) = edit.displaced node [step] := by
  have hpart : doc.select (c ++ [step]) = node.select [step] := by
    rw [select_append, hnode, Option.bind_some]
  cases edit with
  | add value =>
    have hparent : Pointer.parent? (c ++ [step]) = some c := by simp [Pointer.parent?]
    rw [displaced, displaced, Json.displaced, Json.displaced, hparent, Option.bind_some, hnode,
      hpart]
    rfl
  | replace value | remove => exact hpart

/-! ## Places -/

/-- A part that is exchanged for another value is exchanged with its scalars. -/
theorem scalars_withPart {node old : Json} {step : Step} (hold : node.child? step = some old)
    (value : Json) :
    (withPart value node step).scalars + old.scalars = node.scalars + value.scalars := by
  cases node with
  | object members =>
    obtain ⟨name, hname, hget⟩ := exists_name_of_child? hold
    have hput := scalarsMembers_put members name value
    rw [hget] at hput
    simpa [withPart, hname] using hput
  | array items =>
    cases step with
    | index i =>
      obtain ⟨hi, hitem⟩ := List.getElem?_eq_some_iff.mp hold
      rw [← hitem]
      exact scalarsItems_set hi value
    | key name | pastEnd => simp [child?] at hold
  | _ => simp [child?] at hold

/-- The value that is put into a place comes in with its scalars, and what was there goes out.
Further up, the part on the way goes out of the one sum as it comes into the other, and so it
cancels. -/
theorem scalars_of_replace {doc node out value : Json} {c : Pointer}
    (hnode : doc.select c = some node) (hout : doc.replace c value = .ok out) :
    out.scalars + node.scalars = doc.scalars + value.scalars := by
  induction c generalizing doc out with
  | nil =>
    cases hnode
    cases hout
    exact add_comm _ _
  | cons step rest ih =>
    rw [select, Option.bind_eq_some_iff] at hnode
    obtain ⟨child, hchild, hrest⟩ := hnode
    obtain ⟨changed, hchanged, rfl⟩ := exists_withPart_of_replace_cons hchild hout
    have hpart := scalars_withPart hchild changed
    have hbelow := ih hrest hchanged
    apply add_right_cancel (b := child.scalars)
    calc (withPart changed doc step).scalars + node.scalars + child.scalars
        = (withPart changed doc step).scalars + child.scalars + node.scalars :=
          add_right_comm _ _ _
      _ = doc.scalars + (changed.scalars + node.scalars) := by rw [hpart, add_assoc]
      _ = doc.scalars + value.scalars + child.scalars := by
        rw [hbelow, add_comm child.scalars, add_assoc]

/-! ## Edits -/

theorem displaced_member {members : List (String × Json)} {step : Step} {name : String}
    (hname : step.asKey? = some name) (edit : Edit) :
    edit.displaced (object members) [step] = Members.get? members name := by
  have hselect : (object members).select [step] = Members.get? members name := by
    rw [select, child?, hname, Option.bind_some]
    cases Members.get? members name <;> rfl
  cases edit with
  | add value | replace value | remove => exact hselect

theorem displaced_add_item (value : Json) (items : List Json) (step : Step) :
    (add value).displaced (array items) [step] = none := rfl

theorem displaced_item {edit : Edit} {items : List Json} {i : Nat} (hi : i < items.length)
    (hedit : ∀ value, edit ≠ add value) :
    edit.displaced (array items) [.index i] = some items[i] := by
  have hselect : (array items).select [.index i] = some items[i] := by
    rw [select, child?, List.getElem?_eq_getElem hi]
    rfl
  cases edit with
  | add value => exact absurd rfl (hedit value)
  | replace value | remove => exact hselect

/-- The edit of one part is balanced. -/
theorem scalars_of_lastStep {edit : Edit} {node out : Json} {step : Step}
    (h : LastStep edit node step (.ok out)) :
    out.scalars + scalars? (edit.displaced node [step]) = node.scalars + scalars? edit.value? := by
  cases h with
  | @addMember members step name value hname | @replaceMember members step name value hname =>
    rw [displaced_member hname]
    exact scalarsMembers_put members name value
  | @removeMember members step name hname =>
    rw [displaced_member hname, value?, scalars?_none, add_zero]
    exact scalarsMembers_erase members name
  | @insertItem items i value hi =>
    rw [displaced_add_item, scalars?_none, add_zero]
    exact scalarsItems_insertIdx hi value
  | @appendItem items value =>
    rw [displaced_add_item, scalars?_none, add_zero, ← List.insertIdx_length_self]
    exact scalarsItems_insertIdx (Nat.le_refl _) value
  | @replaceItem items i value hi =>
    rw [displaced_item hi (by simp)]
    exact scalarsItems_set hi value
  | @removeItem items i hi =>
    rw [displaced_item hi (by simp), value?, scalars?_none, add_zero]
    exact scalarsItems_eraseIdx hi

/-- What an edit brings comes in, and what it displaces goes out.  To remove the root is no such
exchange. -/
theorem scalars_of_apply {edit : Edit} {doc out : Json} {p : Pointer}
    (hp : p = [] → edit ≠ remove) (h : edit.apply doc p = .ok out) :
    out.scalars + scalars? (edit.displaced doc p) = doc.scalars + scalars? edit.value? := by
  rcases p.eq_nil_or_concat' with hnil | ⟨c, step, hconcat⟩
  · subst hnil
    cases edit with
    | add value | replace value =>
      cases h
      exact add_comm _ _
    | remove => exact absurd rfl (hp rfl)
  · subst hconcat
    obtain ⟨node, changed, hnode, hchanged, hout⟩ := (apply_append_eq_ok_iff (by simp)).mp h
    have hstep := scalars_of_lastStep (apply_singleton_iff.mp hchanged)
    have hplace := scalars_of_replace hnode hout
    rw [displaced_concat hnode]
    apply add_right_cancel (b := node.scalars)
    rw [add_right_comm, hplace, add_assoc, hstep, add_comm node.scalars, add_assoc]

end Edit

namespace Json

/-! ## Copies and moves -/

/-- A copy is balanced as the addition of what it found. -/
theorem scalars_of_copy {doc out value : Json} {source target : Pointer}
    (hvalue : doc.select source = some value) (h : doc.copy source target = .ok out) :
    out.scalars + scalars? (doc.displaced target) = doc.scalars + value.scalars := by
  rw [copy, hvalue] at h
  exact Edit.scalars_of_apply (by simp) h

/-- Every pointer but the root is below the root. -/
theorem isBelow_nil {p : Pointer} (hp : p ≠ []) : p.isBelow [] = true := by
  cases p with
  | nil => exact absurd rfl hp
  | cons step rest => simp [Pointer.isBelow, Pointer.startsWith]

/-- A move that has something to do removes what it found, which is not the root, and adds it to
what was left. -/
theorem exists_reduced_of_move {doc out value : Json} {source target : Pointer}
    (hvalue : doc.select source = some value) (hne : source ≠ target)
    (h : doc.move source target = .ok out) :
    source ≠ [] ∧ ∃ reduced, doc.remove source = .ok reduced ∧
      reduced.add target value = .ok out := by
  simp only [move, hvalue, if_neg hne] at h
  split at h
  · cases h
  · next hbelow =>
    constructor
    · intro hroot
      subst hroot
      exact hbelow (isBelow_nil hne.symm)
    · cases hreduced : doc.remove source with
      | error e =>
        rw [hreduced] at h
        cases h
      | ok reduced =>
        rw [hreduced] at h
        exact ⟨reduced, rfl, h⟩

/-- A move brings nothing in: what it adds is what it has removed. -/
theorem scalars_of_move {doc out value : Json} {source target : Pointer}
    (hvalue : doc.select source = some value) (hne : source ≠ target)
    (h : doc.move source target = .ok out) :
    ∃ reduced, doc.remove source = .ok reduced ∧
      out.scalars + scalars? (reduced.displaced target) = doc.scalars := by
  obtain ⟨hroot, reduced, hreduced, hadd⟩ := exists_reduced_of_move hvalue hne h
  have hremoved := Edit.scalars_of_apply (fun hnil => absurd hnil hroot) hreduced
  have hadded := Edit.scalars_of_apply (by simp) hadd
  rw [Edit.displaced, hvalue, Edit.value?, scalars?_none, add_zero] at hremoved
  exact ⟨reduced, hreduced, hadded.trans hremoved⟩

/-- A move that has nothing to do leaves the document as it is. -/
theorem eq_of_move {doc out : Json} {source target : Pointer}
    (hidle : doc.select source = none ∨ source = target) (h : doc.move source target = .ok out) :
    out = doc := by
  rw [move] at h
  cases hvalue : doc.select source with
  | none =>
    rw [hvalue] at h
    exact (Except.ok.inj h).symm
  | some value =>
    have heq : source = target := hidle.resolve_left (by simp [hvalue])
    simp only [hvalue, if_pos heq] at h
    exact (Except.ok.inj h).symm

/-! ## The whole law -/

/-- Every edit, copy and move that succeeds is balanced: the scalars of the result, with those of
what was displaced, are the scalars of the document, with those of what was brought.  A move
brings nothing, and it displaces what its target leads to once the source is gone; it displaces
nothing if there is nothing to move or nowhere to move it. -/
theorem scalars_are_conserved (doc : Json) (p : Pointer) :
    (∀ value out, doc.add p value = .ok out →
        out.scalars + scalars? (doc.displaced p) = doc.scalars + value.scalars) ∧
      (∀ value out, doc.replace p value = .ok out →
        out.scalars + scalars? (doc.select p) = doc.scalars + value.scalars) ∧
      (∀ out, p ≠ [] → doc.remove p = .ok out →
        out.scalars + scalars? (doc.select p) = doc.scalars) ∧
      (∀ source value out, doc.select source = some value → doc.copy source p = .ok out →
        out.scalars + scalars? (doc.displaced p) = doc.scalars + value.scalars) ∧
      ∀ source out, doc.move source p = .ok out →
        (doc.select source = none ∨ source = p → out.scalars = doc.scalars) ∧
        (doc.select source ≠ none → source ≠ p → ∃ reduced, doc.remove source = .ok reduced ∧
          out.scalars + scalars? (reduced.displaced p) = doc.scalars) := by
  refine ⟨?_, ?_, ?_, ?_, ?_⟩
  · intro value out h
    exact Edit.scalars_of_apply (by simp) h
  · intro value out h
    exact Edit.scalars_of_apply (by simp) h
  · intro out hp h
    have hremoved := Edit.scalars_of_apply (fun hnil => absurd hnil hp) h
    rwa [Edit.value?, scalars?_none, add_zero] at hremoved
  · intro source value out hvalue h
    exact scalars_of_copy hvalue h
  · intro source out h
    constructor
    · intro hidle
      rw [eq_of_move hidle h]
    · intro hsource hne
      obtain ⟨value, hvalue⟩ := Option.ne_none_iff_exists'.mp hsource
      exact scalars_of_move hvalue hne h

/-- All five on an array of one object: an insertion, a replacement, a removal, a copy over the
other member, and a move to the root that leaves the other member behind. -/
theorem scalars_are_conserved_in_one_object :
    (array [null, object [("c", ofInt 3), ("d", ofInt 4)]]).scalars + 0 =
        (array [object [("c", ofInt 3), ("d", ofInt 4)]]).scalars + {null} ∧
      (array [null]).scalars + (object [("c", ofInt 3), ("d", ofInt 4)]).scalars =
        (array [object [("c", ofInt 3), ("d", ofInt 4)]]).scalars + {null} ∧
      (array []).scalars + (object [("c", ofInt 3), ("d", ofInt 4)]).scalars =
        (array [object [("c", ofInt 3), ("d", ofInt 4)]]).scalars ∧
      (array [object [("c", ofInt 3), ("d", ofInt 3)]]).scalars + {ofInt 4} =
        (array [object [("c", ofInt 3), ("d", ofInt 4)]]).scalars + {ofInt 3} ∧
      ∃ reduced,
        (array [object [("c", ofInt 3), ("d", ofInt 4)]]).remove [.index 0, .key "c"] =
          .ok reduced ∧
        (ofInt 3).scalars + scalars? (reduced.displaced []) =
          (array [object [("c", ofInt 3), ("d", ofInt 4)]]).scalars := by
  have hlaw := scalars_are_conserved (array [object [("c", ofInt 3), ("d", ofInt 4)]])
  refine ⟨?_, ?_, ?_, ?_, ?_⟩
  · exact (hlaw [.index 0]).1 null _ rfl
  · exact (hlaw [.index 0]).2.1 null _ rfl
  · exact (hlaw [.index 0]).2.2.1 _ (by decide) rfl
  · exact (hlaw [.index 0, .key "d"]).2.2.2.1 [.index 0, .key "c"] _ _ rfl rfl
  · exact ((hlaw []).2.2.2.2 [.index 0, .key "c"] _ rfl).2 (by decide) (by decide)

end Json

end JsonEdit
