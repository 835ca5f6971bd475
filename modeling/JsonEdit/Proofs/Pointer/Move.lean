import JsonEdit.Proofs.Pointer.Conservation
import JsonEdit.Proofs.Pointer.Undo
import Mathlib.Data.List.ModifyLast

/-!
# Moves

A move removes what its source leads to and adds it at its target, which is read in what the
removal left.  What a lookup finds can be removed, so only the addition can fail.

There are four groups.

* Removals.  `exists_remove_eq_ok` says that a value that is there can be removed.
* Errors of edits.  `exists_site_of_apply_error` lists their kinds and where they stand.
* Landings.  `landing` is where an added value is found afterwards.  A value that displaced
  nothing is removed there again (`remove_landing_of_add`).
* Moves.  `move_eq_add` takes a move apart.  From it come what a move can fail for and when the
  reverse move takes it back.
-/

namespace JsonEdit

open Json

/-! ## Removals -/

/-- What a step leads to can be removed. -/
theorem Edit.exists_lastStep_remove {node old : Json} {step : Step}
    (h : node.child? step = some old) : ∃ changed, LastStep remove node step (.ok changed) := by
  cases node with
  | object members =>
    obtain ⟨name, hname, -⟩ := exists_name_of_child? h
    exact ⟨_, .removeMember hname⟩
  | array items =>
    cases step with
    | index i =>
      obtain ⟨hi, -⟩ := List.getElem?_eq_some_iff.mp h
      exact ⟨_, .removeItem hi⟩
    | key name | pastEnd => cases h
  | _ => cases h

/-- What a pointer leads to can be removed. -/
theorem Json.exists_remove_eq_ok {doc value : Json} {p : Pointer}
    (h : doc.select p = some value) : ∃ out, doc.remove p = .ok out := by
  rcases p.eq_nil_or_concat' with hnil | ⟨c, step, hconcat⟩
  · exact ⟨null, by rw [hnil, remove_nil]⟩
  · rw [hconcat, select_append, Option.bind_eq_some_iff] at h
    obtain ⟨node, hnode, hpart⟩ := h
    rw [select, Option.bind_eq_some_iff] at hpart
    obtain ⟨old, hold, -⟩ := hpart
    obtain ⟨changed, hchanged⟩ := Edit.exists_lastStep_remove hold
    obtain ⟨out, hout⟩ := Edit.exists_replace_eq_ok hnode changed
    refine ⟨out, ?_⟩
    rw [hconcat, Json.remove, Edit.apply_concat_of_lastStep hnode hchanged, hout]

/-! ## Errors of edits -/

namespace Edit

/-- No edit reports a lookup that found nothing: on the way to its place this is a missing
intermediate value, and at the place itself each kind of container has an error of its own. -/
theorem ne_notFound_of_apply_error {edit : Edit} {doc : Json} {p : Pointer} {e : Pointer.Error}
    (h : edit.apply doc p = .error e) (site : Pointer) : e ≠ .notFound site := by
  induction p generalizing doc e site with
  | nil => simp [apply] at h
  | cons step rest ih =>
    by_cases hrest : rest = []
    · subst hrest
      cases apply_singleton_iff.mp h <;> simp
    · obtain rfl | ⟨child, inner, hinner, rfl⟩ := cases_of_apply_cons_error hrest h
      · cases doc.deadEnd [step] step <;> simp [Pointer.Error.onTheWay]
      · have hkind := ih hinner
        cases inner <;> simp_all [Pointer.Error.below]

/-- The errors of an edit are of four kinds, and each stands at a beginning of the pointer that
is not empty. -/
theorem exists_site_of_apply_error {edit : Edit} {doc : Json} {p : Pointer} {e : Pointer.Error}
    (h : edit.apply doc p = .error e) :
    ∃ site, site ≠ [] ∧ site <+: p ∧
      (e = .missingIntermediate site ∨ (∃ index length, e = .indexOutOfRange site index length) ∨
        e = .pastEnd site ∨ ∃ found, e = .typeMismatch site found) := by
  obtain ⟨step, rest, hsite, hprefix⟩ := exists_site?_of_apply_error h
  refine ⟨step :: rest, List.cons_ne_nil step rest, hprefix, ?_⟩
  cases e with
  | notFound site => exact absurd rfl (ne_notFound_of_apply_error h site)
  | missingIntermediate site =>
    cases hsite
    exact .inl rfl
  | indexOutOfRange site index length =>
    cases hsite
    exact .inr (.inl ⟨index, length, rfl⟩)
  | pastEnd site =>
    cases hsite
    exact .inr (.inr (.inl rfl))
  | typeMismatch site found =>
    cases hsite
    exact .inr (.inr (.inr ⟨found, rfl⟩))
  | moveIntoDescendant source target => cases hsite

end Edit

namespace Json

/-! ## Landings -/

/-- Where a value that is added at a pointer is found afterwards: the place behind the last item
of an array is, once the value is there, the place with that index. -/
def landing (doc : Json) (p : Pointer) : Pointer :=
  match p.parent?.bind doc.select with
  | some (array items) => p.modifyLast (Step.landing items.length)
  | _ => p

theorem parent?_concat (c : Pointer) (step : Step) : Pointer.parent? (c ++ [step]) = some c := by
  simp [Pointer.parent?]

theorem landing_item {doc : Json} {c : Pointer} {items : List Json}
    (hitems : doc.select c = some (array items)) (step : Step) :
    doc.landing (c ++ [step]) = c ++ [step.landing items.length] := by
  rw [landing, parent?_concat, Option.bind_some, hitems]
  exact List.modifyLast_concat _ _ _

theorem landing_member {doc : Json} {c : Pointer} {members : List (String × Json)}
    (hmembers : doc.select c = some (object members)) (step : Step) :
    doc.landing (c ++ [step]) = c ++ [step] := by
  rw [landing, parent?_concat, Option.bind_some, hmembers]

/-- A pointer whose last step is not the place behind the last item lands where it points. -/
theorem landing_eq_self {p : Pointer} (hlast : p.getLast? ≠ some .pastEnd) (doc : Json) :
    doc.landing p = p := by
  rw [landing]
  split
  · rcases p.eq_nil_or_concat' with hnil | ⟨c, step, hconcat⟩
    · rw [hnil]
      rfl
    · rw [hconcat, List.modifyLast_concat]
      rw [hconcat, List.getLast?_concat] at hlast
      cases step with
      | pastEnd => exact absurd rfl hlast
      | index i | key name => rfl
  · rfl

/-- A value that was added is found where it landed. -/
theorem select_landing_of_add {doc out value : Json} {p : Pointer}
    (h : doc.add p value = .ok out) : out.select (doc.landing p) = some value := by
  rcases p.eq_nil_or_concat' with hnil | ⟨c, step, hconcat⟩
  · subst hnil
    cases h
    rfl
  · subst hconcat
    obtain ⟨node, changed, hnode, hchanged, hout⟩ := (Edit.apply_append_eq_ok_iff (by simp)).mp h
    cases Edit.apply_singleton_iff.mp hchanged with
    | addMember hname =>
      rw [landing_member hnode, Edit.select_of_replace hnode hout]
      simp [select, child?, hname, Members.get?_put_self]
    | insertItem hi =>
      rw [landing_item hnode, Edit.select_of_replace hnode hout]
      simp [select, child?, Step.landing, List.getElem?_insertIdx_self, hi]
    | appendItem =>
      rw [landing_item hnode, Edit.select_of_replace hnode hout]
      simp [select, child?, Step.landing]

/-- A value that was added behind the last item of an array is the last item now. -/
theorem select_append_of_add {doc out value : Json} {c : Pointer}
    (h : doc.add (c ++ [.pastEnd]) value = .ok out) :
    ∃ items, doc.select c = some (array items) ∧
      out.select c = some (array (items ++ [value])) := by
  obtain ⟨node, changed, hnode, hchanged, hout⟩ := (Edit.apply_append_eq_ok_iff (by simp)).mp h
  cases Edit.apply_singleton_iff.mp hchanged with
  | @appendItem items => exact ⟨items, hnode, select_of_replace_eq_ok hout⟩
  | addMember hname => cases hname

/-- To add a value where it lands is to add it. -/
theorem add_landing (doc : Json) (p : Pointer) (value : Json) :
    doc.add (doc.landing p) value = doc.add p value := by
  by_cases hlast : p.getLast? = some .pastEnd
  · obtain ⟨c, hconcat⟩ := List.getLast?_eq_some_iff.mp hlast
    subst hconcat
    cases hnode : doc.select c with
    | none => rw [landing, parent?_concat, Option.bind_some, hnode]
    | some node =>
      cases node with
      | array items =>
        have hinsert : Edit.LastStep (.add value) (array items) (.index items.length) _ :=
          .insertItem (Nat.le_refl items.length)
        rw [List.insertIdx_length_self] at hinsert
        rw [landing_item hnode, Step.landing, Json.add, Json.add,
          Edit.apply_concat_of_lastStep hnode hinsert, Edit.apply_concat_of_lastStep hnode .appendItem]
      | _ => rw [landing, parent?_concat, Option.bind_some, hnode]
  · rw [landing_eq_self hlast]

/-- Nothing has to make room for a value that is added at a pointer: its place is in an array,
where the items behind it move on, or it is that of a new member. -/
def Vacant (doc : Json) (p : Pointer) : Prop :=
  doc.InArray p ∨ doc.InObject p ∧ doc.select p = none

/-- A value that was added to a vacant place is removed where it landed. -/
theorem remove_landing_of_add {doc out value : Json} {p : Pointer} (hvacant : doc.Vacant p)
    (h : doc.add p value = .ok out) : out.remove (doc.landing p) = .ok doc := by
  rcases hvacant with
    ⟨c, step, items, hconcat, hitems⟩ | ⟨⟨c, step, members, hconcat, hmembers⟩, hold⟩
  · subst hconcat
    rw [landing_item hitems]
    exact Edit.remove_of_add_item hitems h
  · subst hconcat
    rw [landing_member hmembers]
    exact Edit.apply_back_of_member hmembers rfl .remove hold.symm h

/-! ## Moves -/

theorem move_self (doc : Json) (p : Pointer) : doc.move p p = .ok doc := by
  unfold move
  cases doc.select p <;> simp

/-- Nothing is found behind the last item of an array. -/
theorem getLast?_ne_of_select {doc value : Json} {p : Pointer} (h : doc.select p = some value) :
    p.getLast? ≠ some .pastEnd := by
  intro hlast
  obtain ⟨c, hconcat⟩ := List.getLast?_eq_some_iff.mp hlast
  rw [hconcat, select_append, Option.bind_eq_some_iff] at h
  obtain ⟨node, -, hpart⟩ := h
  cases node <;> simp [select, child?, Step.asKey?] at hpart

/-- A move that has something to do is a removal that succeeds and an addition. -/
theorem move_eq_add {doc value : Json} {source target : Pointer}
    (hvalue : doc.select source = some value) (hne : source ≠ target)
    (hbelow : target.isBelow source = false) :
    ∃ reduced, doc.remove source = .ok reduced ∧
      doc.move source target = reduced.add target value := by
  obtain ⟨reduced, hreduced⟩ := exists_remove_eq_ok hvalue
  refine ⟨reduced, hreduced, ?_⟩
  simp [move, hvalue, hne, hbelow, hreduced]

/-- A move of a value to a place that is neither its own nor below it fails only for its target.
The removal succeeds, so the move is the addition to what is left.  Its errors are of four kinds
and stand at a beginning of the target.  After it the value is found at the target, or is the
last item of an array if the target is the place behind the last one. -/
theorem move_fails_only_at_target {doc value : Json} {source target : Pointer}
    (hvalue : doc.select source = some value) (hne : source ≠ target)
    (hbelow : target.isBelow source = false) :
    ∃ reduced, doc.remove source = .ok reduced ∧
      doc.move source target = reduced.add target value ∧
      (∀ e, doc.move source target = .error e →
        ∃ site, site ≠ [] ∧ site <+: target ∧
          (e = .missingIntermediate site ∨
            (∃ index length, e = .indexOutOfRange site index length) ∨
            e = .pastEnd site ∨ ∃ found, e = .typeMismatch site found)) ∧
      ∀ out, doc.move source target = .ok out →
        (target.getLast? ≠ some .pastEnd → out.select target = some value) ∧
        ∀ c, target = c ++ [.pastEnd] → ∃ items, reduced.select c = some (array items) ∧
          out.select c = some (array (items ++ [value])) := by
  obtain ⟨reduced, hreduced, hmove⟩ := move_eq_add hvalue hne hbelow
  refine ⟨reduced, hreduced, hmove, ?_, ?_⟩
  · intro e he
    rw [hmove] at he
    exact Edit.exists_site_of_apply_error he
  · intro out hout
    rw [hmove] at hout
    constructor
    · intro hlast
      have hfound := select_landing_of_add hout
      rwa [landing_eq_self hlast] at hfound
    · intro c hc
      rw [hc] at hout
      exact select_append_of_add hout

/-- The first of two items is moved behind the other one.  A move to index 2 fails, since only
one item is left when the target is read. -/
theorem move_fails_only_at_target_of_two_items :
    (object [("list", array [ofInt 1, ofInt 2])]).select [.key "list", .index 0] =
        some (ofInt 1) ∧
      Pointer.isBelow [.key "list", .pastEnd] [.key "list", .index 0] = false ∧
      (∃ items, (object [("list", array [ofInt 2])]).select [.key "list"] = some (array items) ∧
        (object [("list", array [ofInt 2, ofInt 1])]).select [.key "list"] =
          some (array (items ++ [ofInt 1]))) ∧
      Pointer.isBelow [.key "list", .index 2] [.key "list", .index 0] = false ∧
      (object [("list", array [ofInt 1, ofInt 2])]).move [.key "list", .index 0]
          [.key "list", .index 2] =
        .error (.indexOutOfRange [.key "list", .index 2] 2 1) ∧
      ∃ site, site ≠ [] ∧ site <+: [.key "list", .index 2] ∧
        Pointer.Error.indexOutOfRange [.key "list", .index 2] 2 1 = .indexOutOfRange site 2 1 := by
  have hvalue : (object [("list", array [ofInt 1, ofInt 2])]).select [.key "list", .index 0] =
      some (ofInt 1) := rfl
  have herror : (object [("list", array [ofInt 1, ofInt 2])]).move [.key "list", .index 0]
      [.key "list", .index 2] = .error (.indexOutOfRange [.key "list", .index 2] 2 1) := rfl
  have hbehind : Pointer.isBelow [.key "list", .pastEnd] [.key "list", .index 0] = false := rfl
  have hbeyond : Pointer.isBelow [.key "list", .index 2] [.key "list", .index 0] = false := rfl
  obtain ⟨reduced, hreduced, -, -, hsuccess⟩ :=
    move_fails_only_at_target hvalue (by decide) hbehind
  cases hreduced
  obtain ⟨-, -, -, hfailure, -⟩ := move_fails_only_at_target hvalue (by decide) hbeyond
  obtain ⟨site, hne, hprefix, hkind⟩ := hfailure _ herror
  refine ⟨hvalue, hbehind, (hsuccess _ rfl).2 [.key "list"] rfl, hbeyond, herror, site, hne,
    hprefix, ?_⟩
  simpa using hkind

/-- A move that displaced nothing is taken back by the move from where the value landed to where
it was, unless the source is below that place.  A member of an object comes back as the last one,
so the document is equal to the one before. -/
theorem move_back_of_move {doc out value reduced : Json} {source target : Pointer}
    (hdoc : doc.DistinctNames) (hvalue : doc.select source = some value)
    (hreduced : doc.remove source = .ok reduced) (hvacant : reduced.Vacant target)
    (hbelow : source.isBelow (reduced.landing target) = false)
    (h : doc.move source target = .ok out) :
    ∃ back, out.move (reduced.landing target) source = .ok back ∧ back.Same doc := by
  obtain ⟨back, hback, hsame, -⟩ := Edit.add_back_of_remove ⟨doc, hdoc⟩ hreduced hvalue
  by_cases hidle : source = target
  · have hlanding : reduced.landing target = source := by
      rw [← hidle]
      exact landing_eq_self (getLast?_ne_of_select hvalue) reduced
    have hout : out = doc := eq_of_move (.inr hidle) h
    rw [hlanding, hout]
    exact ⟨doc, move_self doc source, same_self hdoc⟩
  · obtain ⟨-, left, hleft, hadd⟩ := exists_reduced_of_move hvalue hidle h
    have hsame' : left = reduced := Except.ok.inj (hleft.symm.trans hreduced)
    subst hsame'
    have hfound := select_landing_of_add hadd
    have hgone := remove_landing_of_add hvacant hadd
    refine ⟨back, ?_, hsame⟩
    by_cases hplace : left.landing target = source
    · rw [hplace, move_self, ← hadd, ← add_landing, hplace, hback]
    · obtain ⟨again, hagain, hreverse⟩ := move_eq_add hfound hplace hbelow
      rw [hgone] at hagain
      cases hagain
      rw [hreverse, hback]

/-- A member is moved behind the last item of an array and back.  It is the last member then. -/
theorem move_back_of_move_member_to_item :
    (object [("n", ofInt 1), ("list", array [ofInt 2])]).DistinctNames ∧
      (object [("n", ofInt 1), ("list", array [ofInt 2])]).move [.key "n"] [.key "list", .pastEnd] =
        .ok (object [("list", array [ofInt 2, ofInt 1])]) ∧
      ∃ back,
        (object [("list", array [ofInt 2, ofInt 1])]).move [.key "list", .index 1] [.key "n"] =
          .ok back ∧
        back.Same (object [("n", ofInt 1), ("list", array [ofInt 2])]) := by
  have hdoc : (object [("n", ofInt 1), ("list", array [ofInt 2])]).DistinctNames := by decide
  have hreduced : (object [("n", ofInt 1), ("list", array [ofInt 2])]).remove [.key "n"] =
      .ok (object [("list", array [ofInt 2])]) := rfl
  have hvacant : (object [("list", array [ofInt 2])]).Vacant [.key "list", .pastEnd] :=
    .inl ⟨[.key "list"], .pastEnd, [ofInt 2], rfl, rfl⟩
  exact ⟨hdoc, rfl, move_back_of_move hdoc rfl hreduced hvacant rfl rfl⟩

end Json

end JsonEdit
