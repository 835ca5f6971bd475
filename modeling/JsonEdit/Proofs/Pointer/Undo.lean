import JsonEdit.Proofs.Pointer.Distinct

/-!
# Taking an edit back

The value that a pointer led to before an edit is enough to take the edit back.  What came in
goes out again, what was overwritten is put back, and what was taken away is added.

There are four groups.

* One value.  An edit of one part of a value is taken back at that value, and `apply_back`
  moves that to the place where the value stands.
* Additions.  An added item is removed where it landed; an added member is removed if it is
  new, and otherwise gets its old value back.
* Replacements.  They are taken back by the old value and by no other.  To remove takes them
  back where nothing was, and at the root of a document that is null.
* Removals.  An added member goes to the end of its object, so the document is equal, and
  identical if the member was the last one.  An added item goes where it was.

`undo_from_old` is the assembly.
-/

namespace JsonEdit

/-- The step to a value that was added to an array of this length by another step. -/
def Step.landing (length : Nat) : Step → Step
  | pastEnd => index length
  | step => step

namespace Json

/-- The place that a pointer names is in an array of the document. -/
def InArray (doc : Json) (p : Pointer) : Prop :=
  ∃ c step items, p = c ++ [step] ∧ doc.select c = some (array items)

/-- The place that a pointer names is in an object of the document. -/
def InObject (doc : Json) (p : Pointer) : Prop :=
  ∃ c step members, p = c ++ [step] ∧ doc.select c = some (object members)

/-- The place that a pointer names is that of the last member of an object. -/
def LastMember (doc : Json) (p : Pointer) : Prop :=
  ∃ c step members name value, p = c ++ [step] ∧
    doc.select c = some (object (members ++ [(name, value)])) ∧ step.asKey? = some name

end Json

namespace Edit

open Json

/-! ## One value -/

/-- An edit that restores a value restores the document in which the value was changed. -/
theorem apply_back {doc out node changed : Json} {c p : Pointer} {edit : Edit}
    (hnode : doc.select c = some node) (hout : doc.replace c changed = .ok out) (hp : p ≠ [])
    (hback : edit.apply changed p = .ok node) : edit.apply out (c ++ p) = .ok doc := by
  rw [apply_of_replace edit hnode hout hp, hback]
  exact replace_self hnode

/-- An edit that gives a member its old value, or takes a new member away, restores the
members. -/
theorem apply_object_back {step : Step} {name : String} (hname : step.asKey? = some name)
    {edit : Edit} {members : List (String × Json)} (hold : edit.value? = Members.get? members name)
    (value : Json) :
    edit.apply (object (Members.put members name value)) [step] = .ok (object members) := by
  rw [apply_object hname, onMember, if_pos rfl, hold]
  simp [Except.map, Members.assign_put_get?]

theorem remove_insertIdx {items : List Json} {i : Nat} (hi : i ≤ items.length) (value : Json) :
    remove.apply (array (items.insertIdx i value)) [.index i] = .ok (array items) := by
  refine apply_of_lastStep ?_
  have hlt : i < (items.insertIdx i value).length := by
    rw [List.length_insertIdx_of_le_length hi]
    omega
  simpa [List.eraseIdx_insertIdx_self] using LastStep.removeItem hlt

theorem add_eraseIdx {items : List Json} {i : Nat} (hi : i < items.length) :
    (add items[i]).apply (array (items.eraseIdx i)) [.index i] = .ok (array items) := by
  have hle : i ≤ (items.eraseIdx i).length := by
    rw [List.length_eraseIdx_of_lt hi]
    omega
  have hlast : LastStep (add items[i]) (array (items.eraseIdx i)) (.index i) _ :=
    .insertItem hle
  rw [List.insertIdx_eraseIdx_getElem hi] at hlast
  exact apply_of_lastStep hlast

/-- To remove a part that is there makes a value smaller. -/
theorem size_of_remove {node old out : Json} {step : Step} (hold : node.child? step = some old)
    (h : remove.apply node [step] = .ok out) : out.size + 1 = node.size := by
  cases apply_singleton_iff.mp h with
  | removeMember hname =>
    simp only [child?, hname, Option.bind_some] at hold
    exact Members.length_erase_of_get?_eq_some hold
  | removeItem hi =>
    simp only [size, List.length_eraseIdx_of_lt hi]
    omega

/-- What an edit did to a member is taken back by the edit that brings the old value, or by
the removal where there was none. -/
theorem apply_back_of_member {edit : Edit} {doc out value : Json} {c : Pointer} {step : Step}
    {members : List (String × Json)} (hmembers : doc.select c = some (object members))
    (hvalue : edit.value? = some value) (back : Edit)
    (hback : back.value? = doc.select (c ++ [step]))
    (h : edit.apply doc (c ++ [step]) = .ok out) : back.apply out (c ++ [step]) = .ok doc := by
  obtain ⟨changed, hlast, hout⟩ := exists_replace_of_apply_append hmembers (by simp) h
  cases hname : step.asKey? with
  | none => simp [apply, atStep, hname] at hlast
  | some name =>
    have hold : back.value? = Members.get? members name := by
      rw [hback, select_concat hmembers, child?, hname, Option.bind_some]
    rw [apply_object hname, onMember, if_pos rfl, hvalue] at hlast
    obtain rfl : object (Members.put members name value) = changed := by
      simpa [Except.map, Members.assign] using hlast
    exact apply_back hmembers hout (by simp) (apply_object_back hname hold value)

/-! ## Additions -/

/-- An added item is removed where it landed. -/
theorem remove_of_add_item {doc out value : Json} {c : Pointer} {step : Step} {items : List Json}
    (hitems : doc.select c = some (array items)) (h : doc.add (c ++ [step]) value = .ok out) :
    out.remove (c ++ [step.landing items.length]) = .ok doc := by
  obtain ⟨changed, hlast, hout⟩ := exists_replace_of_apply_concat hitems h
  cases hlast with
  | insertItem hi => exact apply_back hitems hout (by simp) (remove_insertIdx hi value)
  | appendItem =>
    rw [← List.insertIdx_length_self] at hout
    exact apply_back hitems hout (by simp) (remove_insertIdx (Nat.le_refl _) value)

/-! ## Replacements -/

/-- A replacement is taken back by the old value and by no other. -/
theorem replace_back_iff {doc out value other : Json} {p : Pointer}
    (h : doc.replace p value = .ok out) :
    out.replace p other = .ok doc ↔ doc.select p = some other := by
  constructor
  · exact select_of_replace_eq_ok
  · intro hold
    rw [replace_replace hold h]
    exact replace_self hold

/-- Removing does not take back the replacement of a part that was there: one part is missing
afterwards. -/
theorem remove_ne_of_replace {doc out value old : Json} {c : Pointer} {step : Step}
    (hold : doc.select (c ++ [step]) = some old) (h : doc.replace (c ++ [step]) value = .ok out) :
    out.remove (c ++ [step]) ≠ .ok doc := by
  intro hback
  obtain ⟨node, changed, hnode, hchanged, hout⟩ := (apply_append_eq_ok_iff (by simp)).mp h
  rw [select_concat hnode] at hold
  obtain rfl : withPart value node step = changed := by
    simpa using (replace_singleton hold value).symm.trans hchanged
  have hchangedAt := select_of_replace_eq_ok hout
  obtain ⟨left, hleft, hdoc⟩ := exists_replace_of_apply_append hchangedAt (by simp) hback
  obtain rfl : left = node := by
    simpa [hnode] using (select_of_replace_eq_ok hdoc).symm
  have hsmaller := size_of_remove (child?_withPart_self hold value) hleft
  rw [size_withPart hold] at hsmaller
  omega

/-- To remove takes a replacement back where nothing was, and also at the root of null. -/
theorem remove_back_iff {doc out value : Json} {p : Pointer} (h : doc.replace p value = .ok out) :
    out.remove p = .ok doc ↔ doc.select p = none ∨ (p = [] ∧ doc = null) := by
  obtain rfl | ⟨c, step, rfl⟩ := p.eq_nil_or_concat'
  · simp [select, eq_comm]
  · constructor
    · intro hback
      cases hold : doc.select (c ++ [step]) with
      | none => exact .inl rfl
      | some old => exact absurd hback (remove_ne_of_replace hold h)
    · rintro (hold | ⟨hnil, -⟩)
      · obtain ⟨node, changed, hnode, hchanged, -⟩ := (apply_append_eq_ok_iff (by simp)).mp h
        cases apply_singleton_iff.mp hchanged with
        | replaceMember hname => exact apply_back_of_member hnode rfl remove hold.symm h
        | replaceItem hi => simp [select_concat hnode, child?, hi] at hold
      · simp at hnil

/-! ## Removals -/

theorem remove_of_select_eq_none {doc out : Json} {p : Pointer} (h : doc.remove p = .ok out)
    (hold : doc.select p = none) : out = doc := by
  obtain rfl | ⟨c, step, rfl⟩ := p.eq_nil_or_concat'
  · simp [select] at hold
  · obtain ⟨node, changed, hnode, hchanged, hout⟩ := (apply_append_eq_ok_iff (by simp)).mp h
    rw [select_concat hnode] at hold
    obtain rfl : node = changed := by
      cases apply_singleton_iff.mp hchanged with
      | removeMember hname =>
        simp only [child?, hname, Option.bind_some] at hold
        rw [Members.erase_eq_self hold]
      | removeItem hi => simp [child?, hi] at hold
    simpa using hout.symm.trans (replace_self hnode)

/-- A member that is removed and added again is found as before. -/
theorem alike_put_erase {members : List (String × Json)} (hmembers : (object members).DistinctNames)
    {name : String} {old : Json} (hold : Members.get? members name = some old) :
    (object (Members.put (Members.erase members name) name old)).Alike (object members) := by
  have hnodup := (distinctNames_object_iff.mp hmembers).1
  exact alike_of_get?_eq (Members.nodup_keys_put (Members.nodup_keys_erase hnodup name) name old)
    hmembers (Members.get?_put_erase hold)

/-- The last member is known by its place. -/
theorem exists_front_of_lastMember {doc old : Json} {c : Pointer} {step : Step}
    {members : List (String × Json)} {name : String} (hnodup : (Members.keys members).Nodup)
    (hmembers : doc.select c = some (object members)) (hname : step.asKey? = some name)
    (hold : Members.get? members name = some old) (h : doc.LastMember (c ++ [step])) :
    ∃ front, members = front ++ [(name, old)] := by
  obtain ⟨c', step', front, last, value, hp, hplace, hlast⟩ := h
  obtain ⟨rfl, hstep⟩ := List.append_inj' hp rfl
  obtain rfl : step = step' := by simpa using hstep
  obtain rfl : members = front ++ [(last, value)] := by simpa [hmembers] using hplace
  obtain rfl : name = last := by simpa [hname] using hlast
  have hvalue : Members.get? (front ++ [(name, value)]) name = some value :=
    (Members.get?_eq_some_iff hnodup).mpr (by simp)
  obtain rfl : value = old := by simpa [hvalue] using hold
  exact ⟨front, rfl⟩

/-- A member that was removed comes back at the end of its object. -/
theorem add_back_of_remove_member (doc : Document) {out old : Json} {c : Pointer} {step : Step}
    {members : List (String × Json)} {name : String}
    (hmembers : doc.1.select c = some (object members)) (hname : step.asKey? = some name)
    (hold : Members.get? members name = some old)
    (hout : doc.1.replace c (object (Members.erase members name)) = .ok out) :
    ∃ back, out.add (c ++ [step]) old = .ok back ∧ back.Same doc.1 ∧
      (doc.1.LastMember (c ++ [step]) → back = doc.1) := by
  have hagain : (add old).apply (object (Members.erase members name)) [step] =
      .ok (object (Members.put (Members.erase members name) name old)) :=
    apply_of_lastStep (.addMember hname)
  obtain ⟨back, hback⟩ := exists_replace_eq_ok hmembers
    (object (Members.put (Members.erase members name) name old))
  refine ⟨back, ?_, ?_, ?_⟩
  · rw [Json.add, apply_of_replace (add old) hmembers hout (by simp), hagain]
    exact hback
  · have hsame := alike_put_erase (doc.part hmembers).2 hold
    exact (alike_of_replace doc.2 hsame hback (replace_self hmembers)).same
  · intro hlast
    have hnodup := doc.nodup_keys hmembers
    obtain ⟨front, rfl⟩ := exists_front_of_lastMember hnodup hmembers hname hold hlast
    rw [Members.put_erase_of_last hnodup] at hback
    simpa using hback.symm.trans (replace_self hmembers)

/-- What was removed can be added again.  The document is equal to the one before, and
identical unless a member other than the last one of its object has moved to the end. -/
theorem add_back_of_remove (doc : Document) {out old : Json} {p : Pointer}
    (h : doc.1.remove p = .ok out) (hold : doc.1.select p = some old) :
    ∃ back, out.add p old = .ok back ∧ back.Same doc.1 ∧
      (p = [] ∨ doc.1.InArray p ∨ doc.1.LastMember p → back = doc.1) := by
  obtain rfl | ⟨c, step, rfl⟩ := p.eq_nil_or_concat'
  · obtain rfl : doc.1 = old := by simpa [select] using hold
    exact ⟨doc.1, rfl, same_self doc.2, fun _ => rfl⟩
  · obtain ⟨node, changed, hnode, hchanged, hout⟩ := (apply_append_eq_ok_iff (by simp)).mp h
    rw [select_concat hnode] at hold
    cases apply_singleton_iff.mp hchanged with
    | @removeItem items i hi =>
      obtain rfl : items[i] = old := by simpa [child?, hi] using hold
      exact ⟨doc.1, apply_back hnode hout (by simp) (add_eraseIdx hi), same_self doc.2, fun _ => rfl⟩
    | @removeMember members step name hname =>
      simp only [child?, hname, Option.bind_some] at hold
      obtain ⟨back, hback, hsame, hlast⟩ := add_back_of_remove_member doc hnode hname hold hout
      refine ⟨back, hback, hsame, ?_⟩
      rintro (hnil | ⟨c', step', items, hp, hitems⟩ | h)
      · simp at hnil
      · obtain ⟨rfl, -⟩ := List.append_inj' hp rfl
        simp [hnode] at hitems
      · exact hlast h

/-! ## The whole law -/

/-- Every edit is taken back from the value that its pointer led to before: an addition by the
removal of the new place or by the old value, a replacement by the old value or by a removal
if there was none, and a removal by the addition of the old value. -/
theorem undo_from_old {doc : Json} (hdoc : doc.DistinctNames) (p : Pointer) :
    (∀ value out, doc.add p value = .ok out →
        (∀ c step items, p = c ++ [step] → doc.select c = some (array items) →
          out.remove (c ++ [step.landing items.length]) = .ok doc) ∧
        (∀ old, p = [] ∨ doc.InObject p → doc.select p = some old →
          out.replace p old = .ok doc) ∧
        (doc.InObject p → doc.select p = none → out.remove p = .ok doc)) ∧
      (∀ value out, doc.replace p value = .ok out →
        (∀ other, out.replace p other = .ok doc ↔ doc.select p = some other) ∧
        (out.remove p = .ok doc ↔ doc.select p = none ∨ (p = [] ∧ doc = null))) ∧
      (∀ out, doc.remove p = .ok out →
        (doc.select p = none → out = doc) ∧
        ∀ old, doc.select p = some old →
          ∃ back, out.add p old = .ok back ∧ back.Same doc ∧
            (p = [] ∨ doc.InArray p ∨ doc.LastMember p → back = doc)) := by
  refine ⟨fun value out h => ⟨?_, ?_, ?_⟩, fun value out h => ⟨?_, ?_⟩, fun out h => ⟨?_, ?_⟩⟩
  · rintro c step items rfl hitems
    exact remove_of_add_item hitems h
  · rintro old (rfl | ⟨c, step, members, rfl, hmembers⟩) hold
    · simpa [select, eq_comm] using hold
    · exact apply_back_of_member hmembers rfl (replace old) hold.symm h
  · rintro ⟨c, step, members, rfl, hmembers⟩ hold
    exact apply_back_of_member hmembers rfl remove hold.symm h
  · exact fun other => replace_back_iff h
  · exact remove_back_iff h
  · exact remove_of_select_eq_none h
  · exact fun old hold => add_back_of_remove ⟨doc, hdoc⟩ h hold

/-- An item that was appended is removed at its index, and the first of two members, once
removed, is added again behind the other one. -/
theorem undo_from_old_append_and_remove :
    (object [("a", null), ("list", array [null, ofInt 7])]).DistinctNames ∧
      (object [("a", null), ("list", array [null, ofInt 7, bool true])]).remove
          [.key "list", .index 2] =
        .ok (object [("a", null), ("list", array [null, ofInt 7])]) ∧
      ∃ back,
        (object [("list", array [null, ofInt 7])]).add [.key "a"] null = .ok back ∧
        back.Same (object [("a", null), ("list", array [null, ofInt 7])]) ∧
        back ≠ object [("a", null), ("list", array [null, ofInt 7])] := by
  have hdoc : (object [("a", null), ("list", array [null, ofInt 7])]).DistinctNames := by decide
  refine ⟨hdoc, ?_, ?_⟩
  · exact ((undo_from_old hdoc [.key "list", .pastEnd]).1 (bool true) _ rfl).1
      [.key "list"] .pastEnd [null, ofInt 7] rfl rfl
  · obtain ⟨back, hback, hsame, -⟩ :=
      ((undo_from_old hdoc [.key "a"]).2.2 _ rfl).2 null rfl
    refine ⟨back, hback, hsame, ?_⟩
    rintro rfl
    exact absurd hback (by decide)

/-- The root of null is a place with an old value, and removing still takes its replacement
back. -/
theorem remove_restores_null_root :
    null.replace [] (ofInt 1) = .ok (ofInt 1) ∧
      ¬ ((ofInt 1).remove [] = .ok null ↔ null.select [] = none) := by
  refine ⟨rfl, fun h => ?_⟩
  have hnone : null.select [] = none := h.mp rfl
  simp [select] at hnone

end Edit

end JsonEdit
