import JsonEdit.Proofs.Pointer.Move

/-!
# What is found after an edit

An edit changes what its own pointer leads to.  This module says what a later lookup or edit
meets there.

There are three groups.

* Replaced values.  Where a pointer leads to a value, `select` and `replace` are the two halves
  of a lens (`replace_is_lens`).
* Added values.  A value that was added is found, and a replacement overwrites it as if it had
  never been there.  Behind the last item of an array nothing is found, but the item has an
  index (`added_is_found`).
* Removed values.  In an object they leave a gap, at which every pointer further down ends.  In
  an array the next item moves up (`removed_is_gone`).
-/

namespace JsonEdit

/-- An item that was inserted is exchanged for another one as if the other one had been
inserted. -/
theorem Items.set_insertIdx_self {α : Type} {items : List α} {i : Nat} (hi : i ≤ items.length)
    (value other : α) : (items.insertIdx i value).set i other = items.insertIdx i other := by
  have hlast : i ≠ (items.insertIdx i value).length := by
    rw [List.length_insertIdx_of_le_length hi]
    omega
  rw [← List.insertIdx_eraseIdx_self hlast, List.eraseIdx_insertIdx_self]

namespace Json

open Edit

/-! ## Replaced values -/

/-- To replace is lawful wherever a pointer leads to a value.  It succeeds and the new value is
found, to put back the old value changes nothing, the order of members included, and of two
replacements only the second one can be seen. -/
theorem replace_is_lens {doc old : Json} {p : Pointer} (hold : doc.select p = some old)
    (value other : Json) :
    ∃ out, doc.replace p value = .ok out ∧ out.select p = some value ∧
      doc.replace p old = .ok doc ∧
      ∃ last, out.replace p other = .ok last ∧ doc.replace p other = .ok last := by
  obtain ⟨out, hout⟩ := exists_replace_eq_ok hold value
  obtain ⟨last, hlast⟩ := exists_replace_eq_ok hold other
  refine ⟨out, hout, select_of_replace_eq_ok hout, replace_self hold, last, ?_, hlast⟩
  rw [replace_replace hold hout, hlast]

/-- The way leads through a member that an index names and through an item. -/
theorem replace_is_lens_in_second_item :
    (object [("0", array [null, object [("a", ofInt 1), ("b", ofInt 2)]])]).select
        [.index 0, .index 1, .key "a"] = some (ofInt 1) ∧
      (object [("0", array [null, object [("a", null), ("b", ofInt 2)]])]).select
        [.index 0, .index 1, .key "a"] = some null ∧
      (object [("0", array [null, object [("a", ofInt 1), ("b", ofInt 2)]])]).replace
          [.index 0, .index 1, .key "a"] (ofInt 1) =
        .ok (object [("0", array [null, object [("a", ofInt 1), ("b", ofInt 2)]])]) ∧
      (object [("0", array [null, object [("a", null), ("b", ofInt 2)]])]).replace
          [.index 0, .index 1, .key "a"] (ofInt 5) =
        (object [("0", array [null, object [("a", ofInt 1), ("b", ofInt 2)]])]).replace
          [.index 0, .index 1, .key "a"] (ofInt 5) := by
  have hold : (object [("0", array [null, object [("a", ofInt 1), ("b", ofInt 2)]])]).select
      [.index 0, .index 1, .key "a"] = some (ofInt 1) := rfl
  obtain ⟨out, hout, hfound, hback, last, hagain, hlast⟩ := replace_is_lens hold null (ofInt 5)
  cases hout
  exact ⟨hold, hfound, hback, hagain.trans hlast.symm⟩

/-! ## Added values -/

/-- A value that was added to one part of a value is replaced there by another one as if the
other one had been added. -/
theorem exists_replace_of_add_singleton {node changed value : Json} {step : Step}
    (hstep : step ≠ .pastEnd) (h : (Edit.add value).apply node [step] = .ok changed)
    (other : Json) :
    ∃ again, LastStep (.replace other) changed step (.ok again) ∧
      LastStep (.add other) node step (.ok again) := by
  cases apply_singleton_iff.mp h with
  | @addMember members step name value hname =>
    have hreplace : LastStep (.replace other) (object (Members.put members name value)) step _ :=
      .replaceMember hname
    rw [Members.put_put_self] at hreplace
    exact ⟨_, hreplace, .addMember hname⟩
  | @insertItem items i value hi =>
    have hrange : i < (items.insertIdx i value).length := by
      rw [List.length_insertIdx_of_le_length hi]
      omega
    have hreplace : LastStep (.replace other) (array (items.insertIdx i value)) (.index i) _ :=
      .replaceItem hrange
    rw [Items.set_insertIdx_self hi] at hreplace
    exact ⟨_, hreplace, .insertItem hi⟩
  | appendItem => exact absurd rfl hstep

/-- A value that was added is replaced by another one as if the other one had been added. -/
theorem exists_replace_of_add {doc out value : Json} {p : Pointer}
    (hlast : p.getLast? ≠ some .pastEnd) (h : doc.add p value = .ok out) (other : Json) :
    ∃ again, out.replace p other = .ok again ∧ doc.add p other = .ok again := by
  rcases p.eq_nil_or_concat' with hnil | ⟨c, step, hconcat⟩
  · subst hnil
    exact ⟨other, rfl, rfl⟩
  · subst hconcat
    have hstep : step ≠ .pastEnd := by simpa using hlast
    obtain ⟨node, changed, hnode, hchanged, hout⟩ := (apply_append_eq_ok_iff (by simp)).mp h
    obtain ⟨again, hreplace, hadd⟩ := exists_replace_of_add_singleton hstep hchanged other
    obtain ⟨last, hlast⟩ := exists_replace_eq_ok hnode again
    refine ⟨last, ?_, ?_⟩
    · rw [Json.replace, apply_concat_of_lastStep (select_of_replace_eq_ok hout) hreplace,
        replace_replace hnode hout, hlast]
    · rw [Json.add, apply_concat_of_lastStep hnode hadd, hlast]

/-- A value passes a test for itself. -/
theorem test_of_select {doc value : Json} {p : Pointer} (hvalue : value.DistinctNames)
    (h : doc.select p = some value) : doc.test p value = true := by
  rw [test, h]
  exact same_self hvalue

/-- At the place behind the last item of an array there is nothing to replace or remove. -/
theorem apply_pastEnd_eq_error {doc : Json} {c : Pointer} {items : List Json}
    (hitems : doc.select c = some (array items)) {edit : Edit} (hedit : ∀ value, edit ≠ .add value) :
    edit.apply doc (c ++ [.pastEnd]) = .error (.pastEnd (c ++ [.pastEnd])) := by
  rw [apply_concat_error_of_lastStep hitems (.pastEnd fun _ value _ => hedit value),
    Pointer.Error.under_pastEnd]

/-- A value that was added is found at its pointer, and is overwritten as if it had never been
added.  It passes a test there if no object in it has a name twice, which holds of every value
that was read.  A value that was added behind the last item of an array is the last item now, and
the items in front of it have not moved.  It is found at its index only: the place behind the
last item still has nothing to replace or remove. -/
theorem added_is_found {doc out value : Json} {p : Pointer} (h : doc.add p value = .ok out) :
    (p.getLast? ≠ some .pastEnd →
        out.select p = some value ∧
        (value.DistinctNames → out.test p value = true) ∧
        ∀ other, ∃ again, out.replace p other = .ok again ∧ doc.add p other = .ok again) ∧
      ∀ c, p = c ++ [.pastEnd] → ∃ items,
        doc.select c = some (array items) ∧
        out.select c = some (array (items ++ [value])) ∧
        out.select (c ++ [.index items.length]) = some value ∧
        (∀ j r, j < items.length →
          out.select (c ++ .index j :: r) = doc.select (c ++ .index j :: r)) ∧
        (∀ other, out.replace p other = .error (.pastEnd p)) ∧
        out.remove p = .error (.pastEnd p) := by
  constructor
  · intro hlast
    have hfound := select_landing_of_add h
    rw [landing_eq_self hlast] at hfound
    exact ⟨hfound, fun hvalue => test_of_select hvalue hfound, exists_replace_of_add hlast h⟩
  · intro c hc
    subst hc
    obtain ⟨items, hitems, hfound⟩ := select_append_of_add h
    have hlanded := select_landing_of_add h
    rw [landing_item hitems] at hlanded
    refine ⟨items, hitems, hfound, hlanded, ?_, ?_, ?_⟩
    · intro j r hj
      exact select_appendItem hitems h hj r
    · intro other
      exact apply_pastEnd_eq_error hfound (by simp)
    · exact apply_pastEnd_eq_error hfound (by simp)

/-- An item is inserted in front of another one, and one is appended. -/
theorem added_is_found_in_array :
    (object [("list", array [ofInt 1])]).add [.key "list", .index 0] (ofInt 7) =
        .ok (object [("list", array [ofInt 7, ofInt 1])]) ∧
      (object [("list", array [ofInt 7, ofInt 1])]).test [.key "list", .index 0] (ofInt 7) = true ∧
      (object [("list", array [ofInt 7, ofInt 1])]).replace [.key "list", .index 0] null =
        (object [("list", array [ofInt 1])]).add [.key "list", .index 0] null ∧
      (object [("list", array [ofInt 1])]).add [.key "list", .pastEnd] (ofInt 7) =
        .ok (object [("list", array [ofInt 1, ofInt 7])]) ∧
      (object [("list", array [ofInt 1, ofInt 7])]).select [.key "list", .index 1] =
        some (ofInt 7) ∧
      (object [("list", array [ofInt 1, ofInt 7])]).remove [.key "list", .pastEnd] =
        .error (.pastEnd [.key "list", .pastEnd]) := by
  have hinsert : (object [("list", array [ofInt 1])]).add [.key "list", .index 0] (ofInt 7) =
      .ok (object [("list", array [ofInt 7, ofInt 1])]) := rfl
  have happend : (object [("list", array [ofInt 1])]).add [.key "list", .pastEnd] (ofInt 7) =
      .ok (object [("list", array [ofInt 1, ofInt 7])]) := rfl
  obtain ⟨-, htest, hreplace⟩ := (added_is_found hinsert).1 (by decide)
  obtain ⟨again, hagain, hadd⟩ := hreplace null
  obtain ⟨items, hitems, -, hindex, -, -, hremove⟩ := (added_is_found happend).2 [.key "list"] rfl
  cases hitems
  exact ⟨hinsert, htest (by decide), hagain.trans hadd.symm, happend, hindex, hremove⟩

/-! ## Removed values -/

/-- A step with a name that an object does not have ends there. -/
theorem deadEnd_object {members : List (String × Json)} {step : Step} {name : String}
    (hname : step.asKey? = some name) (site : Pointer) :
    (object members).deadEnd site step = .notFound site := by
  cases step with
  | pastEnd => cases hname
  | index i | key n => rfl

section Member

variable {doc out : Json} {c : Pointer} {step : Step} {members : List (String × Json)}

/-- A member that was removed is not in its object any more. -/
theorem exists_left_of_remove_member (doc : Document)
    (hmembers : doc.1.select c = some (object members))
    (h : doc.1.remove (c ++ [step]) = .ok out) :
    ∃ left name, out.select c = some (object left) ∧ step.asKey? = some name ∧
      Members.get? left name = none := by
  obtain ⟨changed, hlast, hout⟩ := exists_replace_of_apply_concat hmembers h
  have hnodup := doc.nodup_keys hmembers
  cases hlast with
  | @removeMember members step name hname =>
    exact ⟨_, name, select_of_replace_eq_ok hout, hname, Members.get?_erase_self hnodup name⟩

variable {left : List (String × Json)} {name : String}

/-- To remove a member that is not there changes nothing. -/
theorem remove_of_get?_eq_none (hleft : doc.select c = some (object left))
    (hname : step.asKey? = some name) (hnone : Members.get? left name = none) :
    doc.remove (c ++ [step]) = .ok doc := by
  rw [Json.remove, apply_concat_of_lastStep hleft (.removeMember hname),
    Members.erase_eq_self hnone]
  exact replace_self hleft

/-- A lookup that goes through a member that is not there ends at the name of the member. -/
theorem resolve_of_get?_eq_none (hleft : doc.select c = some (object left))
    (hname : step.asKey? = some name) (hnone : Members.get? left name = none) (r : Pointer) :
    doc.resolve (c ++ [step] ++ r) = .error (.notFound (c ++ [step])) := by
  have hchild : (object left).child? step = none := by
    rw [child?, hname, Option.bind_some, hnone]
  rw [← List.append_cons, resolve_of_deadEnd hleft hchild, deadEnd_object hname]

end Member

/-- A value that was removed from an object is gone, if no object has a name twice.  Its pointer
leads nowhere, to remove it again changes nothing, and whatever goes through it ends there: a
lookup finds nothing, and an edit misses an intermediate value, at the pointer of the removed
value and not further down.  Where an item was removed from an array there is the next one, and
where it was the last one there is nothing to remove. -/
theorem removed_is_gone {doc out : Json} {c : Pointer} {step : Step}
    (h : doc.remove (c ++ [step]) = .ok out) :
    (∀ members, doc.DistinctNames → doc.select c = some (object members) →
        out.select (c ++ [step]) = none ∧
        out.remove (c ++ [step]) = .ok out ∧
        ∀ r, r ≠ [] →
          out.resolve (c ++ [step] ++ r) = .error (.notFound (c ++ [step])) ∧
          ∀ edit : Edit,
            edit.apply out (c ++ [step] ++ r) = .error (.missingIntermediate (c ++ [step]))) ∧
      ∀ items i, doc.select c = some (array items) → step = .index i →
        out.select c = some (array (items.eraseIdx i)) ∧
        (items.eraseIdx i).length = items.length - 1 ∧
        out.select (c ++ [step]) = doc.select (c ++ [.index (i + 1)]) ∧
        (i = items.length - 1 →
          out.remove (c ++ [step]) =
            .error (.indexOutOfRange (c ++ [step]) i (items.length - 1))) := by
  constructor
  · intro members hdoc hmembers
    obtain ⟨left, name, hleft, hname, hnone⟩ := exists_left_of_remove_member ⟨doc, hdoc⟩ hmembers h
    have hresolve := resolve_of_get?_eq_none hleft hname hnone
    have hsite : out.resolve (c ++ [step]) = .error (.notFound (c ++ [step])) := by
      simpa using hresolve []
    refine ⟨select_eq_none_of_resolve hsite, remove_of_get?_eq_none hleft hname hnone, ?_⟩
    intro r hr
    exact ⟨hresolve r, fun edit => apply_of_resolve_error edit hsite hr⟩
  · intro items i hitems hstep
    subst hstep
    obtain ⟨changed, hlast, hout⟩ := exists_replace_of_apply_concat hitems h
    cases hlast with
    | removeItem hi =>
      have hleft := select_of_replace_eq_ok hout
      have hlength : (items.eraseIdx i).length = items.length - 1 := List.length_eraseIdx_of_lt hi
      refine ⟨hleft, hlength, (select_removeItem hitems h i []).2 (Nat.le_refl i), ?_⟩
      intro hend
      have hrange : (items.eraseIdx i).length ≤ i := by omega
      rw [Json.remove, apply_concat_error_of_lastStep hleft (.removeOutOfRange hrange),
        Pointer.Error.under_indexOutOfRange, hlength]

/-- The second of two members goes, and then the last of two items. -/
theorem removed_is_gone_member_and_item :
    (object [("a", null), ("list", array [ofInt 1, ofInt 2])]).DistinctNames ∧
      (object [("a", null), ("list", array [ofInt 1, ofInt 2])]).remove [.key "list"] =
        .ok (object [("a", null)]) ∧
      (object [("a", null)]).select [.key "list"] = none ∧
      (object [("a", null)]).resolve [.key "list", .index 0, .key "x"] =
        .error (.notFound [.key "list"]) ∧
      (object [("a", null)]).add [.key "list", .index 0, .key "x"] null =
        .error (.missingIntermediate [.key "list"]) ∧
      (object [("a", null), ("list", array [ofInt 1, ofInt 2])]).remove [.key "list", .index 1] =
        .ok (object [("a", null), ("list", array [ofInt 1])]) ∧
      (object [("a", null), ("list", array [ofInt 1])]).remove [.key "list", .index 1] =
        .error (.indexOutOfRange [.key "list", .index 1] 1 1) := by
  have hdoc : (object [("a", null), ("list", array [ofInt 1, ofInt 2])]).DistinctNames := by decide
  have hmember : (object [("a", null), ("list", array [ofInt 1, ofInt 2])]).remove
      ([] ++ [.key "list"]) = .ok (object [("a", null)]) := rfl
  have hitem : (object [("a", null), ("list", array [ofInt 1, ofInt 2])]).remove
      ([.key "list"] ++ [.index 1]) = .ok (object [("a", null), ("list", array [ofInt 1])]) := rfl
  obtain ⟨hgone, -, hbelow⟩ := (removed_is_gone hmember).1 _ hdoc rfl
  obtain ⟨hresolve, hedit⟩ := hbelow [.index 0, .key "x"] (by simp)
  obtain ⟨-, -, -, hagain⟩ := (removed_is_gone hitem).2 _ 1 rfl rfl
  exact ⟨hdoc, hmember, hgone, hresolve, hedit (.add null), hitem, hagain rfl⟩

end Json

end JsonEdit
