import JsonEdit.Proofs.Pointer.Move

/-!
# Moves inside one array

A move from one item of an array to another place of the same array reads its target in the
array without the item.  So there is one place less than before: the item can land at every
index that the array had, or behind the last of the others, which is the same as the last
index, and the length of the array is out of range although a value can be added there.

* One array.  `itemMoved_of_replace` says what the array is after the item has landed.
* Whole documents.  `exists_move_item_eq_add` is the move as an addition to the shortened array.
  It holds for every target in the array, the place of the item included, and the cases of
  `move_within_array` are the cases of that addition.
-/

namespace JsonEdit.Json

/-- What a move of one item of an array does to a document.  The array that `c` led to is
exchanged for one in which the item with index `i` stands at index `j`, and the others stand in
the order in which they stood.  Outside of the array nothing changes. -/
structure ItemMoved (doc out : Json) (c : Pointer) (items moved : List Json) (i j : Nat) : Prop where
  /-- The array is found where it was. -/
  found : out.select c = some (array moved)
  /-- The item is at its new index. -/
  landed : moved[j]? = items[i]?
  /-- The others keep their order. -/
  others : moved.eraseIdx j = items.eraseIdx i
  /-- The array is all that was exchanged. -/
  exchanged : doc.replace c (array moved) = .ok out
  /-- Every pointer that leaves the way to the array leads to what it led to.  The way ends with a
  step into the array, because pointers part above the last step only. -/
  outside : ∀ q, Apart doc (c ++ [.index i]) q → out.select q = doc.select q

section

variable {doc : Json} {c : Pointer} {items : List Json}

/-! ## One array -/

/-- The item that was taken out of an array and put in at another index has moved there. -/
theorem itemMoved_of_replace (hitems : doc.select c = some (array items)) {i j : Nat}
    (hi : i < items.length) (hj : j < items.length) {out : Json}
    (hout : doc.replace c (array ((items.eraseIdx i).insertIdx j items[i])) = .ok out) :
    ItemMoved doc out c items ((items.eraseIdx i).insertIdx j items[i]) i j where
  found := select_of_replace_eq_ok hout
  landed := by
    have hle : j ≤ (items.eraseIdx i).length := by
      rw [List.length_eraseIdx_of_lt hi]
      omega
    rw [List.getElem?_insertIdx_self, if_pos hle, List.getElem?_eq_getElem hi]
  others := List.eraseIdx_insertIdx_self items[i]
  exchanged := hout
  outside := fun _ hapart => Edit.select_of_replace_of_apart hitems hapart hout

/-! ## Whole documents -/

/-- No place in a container is below another one. -/
theorem isBelow_concat (c : Pointer) (s t : Step) :
    Pointer.isBelow (c ++ [s]) (c ++ [t]) = false := by
  simp [Pointer.isBelow]

/-- To move an item inside its array is to add it to the document in which the array holds the
others only. -/
theorem exists_move_item_eq_add (hitems : doc.select c = some (array items)) {i : Nat}
    (hi : i < items.length) (step : Step) :
    ∃ reduced, doc.replace c (array (items.eraseIdx i)) = .ok reduced ∧
      doc.move (c ++ [.index i]) (c ++ [step]) = reduced.add (c ++ [step]) items[i] := by
  by_cases hstep : step = .index i
  · obtain ⟨reduced, hreduced⟩ := Edit.exists_replace_eq_ok hitems (array (items.eraseIdx i))
    have hback : reduced.add (c ++ [.index i]) items[i] = .ok doc :=
      Edit.apply_back hitems hreduced (by simp) (Edit.add_eraseIdx hi)
    exact ⟨reduced, hreduced, by rw [hstep, move_self, hback]⟩
  · have hvalue : doc.select (c ++ [.index i]) = some items[i] := by
      rw [select_concat hitems, child?, List.getElem?_eq_getElem hi]
    have hne : c ++ [.index i] ≠ c ++ [step] := by simpa [eq_comm] using hstep
    obtain ⟨reduced, hremove, hmove⟩ := move_eq_add hvalue hne (isBelow_concat c step (.index i))
    obtain ⟨others, hlast, hreduced⟩ := Edit.exists_replace_of_apply_concat hitems hremove
    cases hlast with
    | removeItem => exact ⟨reduced, hreduced, hmove⟩

/-- What the addition to the others makes of them is put in the place of the array. -/
theorem move_item_of_lastStep (hitems : doc.select c = some (array items)) {i : Nat}
    (hi : i < items.length) {step : Step} {changed : Json}
    (h : Edit.LastStep (.add items[i]) (array (items.eraseIdx i)) step (.ok changed)) :
    doc.move (c ++ [.index i]) (c ++ [step]) = doc.replace c changed := by
  obtain ⟨reduced, hreduced, hmove⟩ := exists_move_item_eq_add hitems hi step
  have hothers := select_of_replace_eq_ok hreduced
  rw [hmove, Json.add, Edit.apply_concat_of_lastStep hothers h, replace_replace hitems hreduced]

/-- A move of an item to another place of its array.  It lands at each index that the array had,
and at the last one if its target is the place behind the last item.  Further on there is no
place: the error names the target, and its length is that of the array without the item. -/
theorem move_within_array (hitems : doc.select c = some (array items)) {i : Nat}
    (hi : i < items.length) :
    (∀ j, j ≤ items.length - 1 → ∃ out moved,
        doc.move (c ++ [.index i]) (c ++ [.index j]) = .ok out ∧
          ItemMoved doc out c items moved i j) ∧
      (∃ out moved,
        doc.move (c ++ [.index i]) (c ++ [.pastEnd]) = .ok out ∧
          ItemMoved doc out c items moved i (items.length - 1)) ∧
      ∀ j, items.length ≤ j →
        doc.move (c ++ [.index i]) (c ++ [.index j]) =
          .error (.indexOutOfRange (c ++ [.index j]) j (items.length - 1)) := by
  have hlength : (items.eraseIdx i).length = items.length - 1 := List.length_eraseIdx_of_lt hi
  refine ⟨?_, ?_, ?_⟩
  · intro j hj
    obtain ⟨out, hout⟩ := Edit.exists_replace_eq_ok hitems
      (array ((items.eraseIdx i).insertIdx j items[i]))
    refine ⟨out, _, ?_, itemMoved_of_replace hitems hi (by omega) hout⟩
    rw [move_item_of_lastStep hitems hi (.insertItem (hj.trans_eq hlength.symm)), hout]
  · obtain ⟨out, hout⟩ := Edit.exists_replace_eq_ok hitems
      (array ((items.eraseIdx i).insertIdx (items.length - 1) items[i]))
    refine ⟨out, _, ?_, itemMoved_of_replace hitems hi (by omega) hout⟩
    rw [move_item_of_lastStep hitems hi .appendItem, ← List.insertIdx_length_self, hlength, hout]
  · intro j hj
    obtain ⟨reduced, hreduced, hmove⟩ := exists_move_item_eq_add hitems hi (.index j)
    have hothers := select_of_replace_eq_ok hreduced
    have hrange : (items.eraseIdx i).length < j := by omega
    rw [hmove, Json.add, Edit.apply_concat_error_of_lastStep hothers (.addOutOfRange hrange),
      Pointer.Error.under_indexOutOfRange, hlength]

end

/-- Three items.  The first one goes to the middle and behind the last one; there is no place with
index 3 for it, since only two items are left when the target is read. -/
theorem move_within_array_first_of_three :
    (object [("n", null), ("list", array [ofInt 1, ofInt 2, ofInt 3])]).select [.key "list"] =
        some (array [ofInt 1, ofInt 2, ofInt 3]) ∧
      0 < [ofInt 1, ofInt 2, ofInt 3].length ∧
      ItemMoved (object [("n", null), ("list", array [ofInt 1, ofInt 2, ofInt 3])])
        (object [("n", null), ("list", array [ofInt 2, ofInt 1, ofInt 3])]) [.key "list"]
        [ofInt 1, ofInt 2, ofInt 3] [ofInt 2, ofInt 1, ofInt 3] 0 1 ∧
      ItemMoved (object [("n", null), ("list", array [ofInt 1, ofInt 2, ofInt 3])])
        (object [("n", null), ("list", array [ofInt 2, ofInt 3, ofInt 1])]) [.key "list"]
        [ofInt 1, ofInt 2, ofInt 3] [ofInt 2, ofInt 3, ofInt 1] 0 2 ∧
      (object [("n", null), ("list", array [ofInt 1, ofInt 2, ofInt 3])]).move
          [.key "list", .index 0] [.key "list", .index 3] =
        .error (.indexOutOfRange [.key "list", .index 3] 3 2) := by
  have hitems : (object [("n", null), ("list", array [ofInt 1, ofInt 2, ofInt 3])]).select
      [.key "list"] = some (array [ofInt 1, ofInt 2, ofInt 3]) := rfl
  obtain ⟨hindex, hend, hrange⟩ := move_within_array hitems (i := 0) (by decide)
  refine ⟨hitems, by decide, ?_, ?_, hrange 3 (by decide)⟩
  · obtain ⟨out, moved, hmove, hmoved⟩ := hindex 1 (by decide)
    cases hmove
    cases hmoved.found
    exact hmoved
  · obtain ⟨out, moved, hmove, hmoved⟩ := hend
    cases hmove
    cases hmoved.found
    exact hmoved

end JsonEdit.Json
