import JsonEdit.Json.Writer
import JsonEdit.Proofs.Pointer.Canonical
import JsonEdit.Proofs.Pointer.Move

/-!
# Two pointers to one place

The name `0` and the index 0 are written alike and lead to the same member of an object.  So a
value can have pointers that are different lists of steps and have the same text.  A lookup and
an edit do not tell them apart.  A move does: it knows that a value stays where it is by
comparing the steps, and otherwise takes the value out and adds it again.

There are four groups.

* Steps.  `eq_or_asKey?_eq_of_text_eq` says how two steps to parts of one value can be written
  alike.
* Pointers, by induction on both: `select_eq_of_text_eq` and `replace_eq_of_text_eq`.
* Members.  A member that was taken out and added again is the last one.
* Moves.  `move_onto_itself` is the whole law.  Nothing is lost, but the member goes to the end
  of its object, and `move_onto_itself_reorders` is a document in which that can be seen.
-/

namespace JsonEdit

open Json

/-! ## Steps -/

namespace Step

/-- A step with a name is written as the name is. -/
theorem text_of_asKey? {step : Step} {name : String} (h : step.asKey? = some name) :
    step.text = Pointer.escape name.toList := by
  cases step with
  | index i =>
    cases h
    have hself := Pointer.escape_unescape (index i).slash_not_mem_text (index i).escaped_text
    rw [text, Pointer.unescape_of_plain (plain_decimal i)] at hself
    rw [String.toList_ofList, text, hself]
  | key other =>
    cases h
    rfl
  | pastEnd => cases h

/-- Steps with names that are written alike have the same name. -/
theorem asKey?_eq_of_text_eq {s t : Step} {a b : String} (hs : s.asKey? = some a)
    (ht : t.asKey? = some b) (htext : s.text = t.text) : a = b := by
  rw [text_of_asKey? hs, text_of_asKey? ht] at htext
  have hname := congrArg Pointer.unescape htext
  rw [Pointer.unescape_escape, Pointer.unescape_escape] at hname
  exact String.toList_inj.mp hname

end Step

namespace Json

variable {doc node a b : Json} {s t : Step} {p q : Pointer}

/-- Two steps that are written alike and lead to parts of one value are the same step, unless the
value is an object.  There they have the same name. -/
theorem eq_or_asKey?_eq_of_text_eq (hs : node.child? s = some a) (ht : node.child? t = some b)
    (htext : s.text = t.text) :
    s = t ∨ ∃ members, node = object members ∧ s.asKey? = t.asKey? := by
  cases node with
  | object members =>
    rcases exists_name_of_child? hs with ⟨n, hn, -⟩
    rcases exists_name_of_child? ht with ⟨m, hm, -⟩
    refine .inr ⟨members, rfl, ?_⟩
    rw [hn, hm, Step.asKey?_eq_of_text_eq hn hm htext]
  | array items =>
    cases s with
    | index i =>
      cases t with
      | index j =>
        have hvalue := congrArg Text.decimalValue htext
        rw [Step.text, Step.text, Text.decimalValue_decimal, Text.decimalValue_decimal] at hvalue
        exact .inl (congrArg Step.index hvalue)
      | key name | pastEnd => cases ht
    | key name | pastEnd => cases hs
  | _ => cases hs

theorem child?_eq_of_text_eq (hs : node.child? s = some a) (ht : node.child? t = some b)
    (htext : s.text = t.text) : a = b := by
  have hsame : node.child? s = node.child? t := by
    rcases eq_or_asKey?_eq_of_text_eq hs ht htext with heq | ⟨members, hmembers, hname⟩
    · rw [heq]
    · rw [hmembers]
      exact child?_object_congr hname members
  rw [hs, ht] at hsame
  exact Option.some.inj hsame

theorem withPart_eq_of_text_eq (hs : node.child? s = some a) (ht : node.child? t = some b)
    (htext : s.text = t.text) (value : Json) :
    Edit.withPart value node s = Edit.withPart value node t := by
  rcases eq_or_asKey?_eq_of_text_eq hs ht htext with heq | ⟨members, hmembers, hname⟩
  · rw [heq]
  · rw [hmembers]
    simp only [Edit.withPart, hname]

/-! ## Pointers -/

/-- Pointers whose first steps are written alike enter the same part. -/
theorem exists_child_of_text_eq (hp : doc.select (s :: p) = some a)
    (hq : doc.select (t :: q) = some b) (htext : s.text = t.text) :
    ∃ child, doc.child? s = some child ∧ doc.child? t = some child ∧
      child.select p = some a ∧ child.select q = some b := by
  rw [select, Option.bind_eq_some_iff] at hp hq
  rcases hp with ⟨child, hchild, hrest⟩
  rcases hq with ⟨child', hchild', hothers⟩
  have hsame := child?_eq_of_text_eq hchild hchild' htext
  rw [← hsame] at hchild' hothers
  exact ⟨child, hchild, hchild', hrest, hothers⟩

/-- Pointers that are written alike lead to the same value, if they both lead to one. -/
theorem select_eq_of_text_eq (hp : doc.select p = some a) (hq : doc.select q = some b)
    (htext : p.map Step.text = q.map Step.text) : a = b := by
  induction p generalizing doc q with
  | nil =>
    obtain rfl : q = [] := by simpa using htext.symm
    exact Option.some.inj (hp.symm.trans hq)
  | cons s rest ih =>
    cases q with
    | nil => simp at htext
    | cons t others =>
      rw [List.map_cons, List.map_cons, List.cons.injEq] at htext
      rcases exists_child_of_text_eq hp hq htext.1 with ⟨child, -, -, hrest, hothers⟩
      exact ih hrest hothers htext.2

/-- What they both lead to is replaced by either of them. -/
theorem replace_eq_of_text_eq (hp : doc.select p = some a) (hq : doc.select q = some b)
    (htext : p.map Step.text = q.map Step.text) (value : Json) :
    doc.replace p value = doc.replace q value := by
  induction p generalizing doc q with
  | nil =>
    obtain rfl : q = [] := by simpa using htext.symm
    rfl
  | cons s rest ih =>
    cases q with
    | nil => simp at htext
    | cons t others =>
      rw [List.map_cons, List.map_cons, List.cons.injEq] at htext
      rcases exists_child_of_text_eq hp hq htext.1 with
        ⟨child, hchild, hchild', hrest, hothers⟩
      rcases Edit.exists_replace_eq_ok hothers value with ⟨changed, hchanged⟩
      rw [Edit.replace_cons hchild, Edit.replace_cons hchild', ih hrest hothers htext.2, hchanged,
        Edit.around, Edit.around, withPart_eq_of_text_eq hchild hchild' htext.1]

end Json

/-! ## Members -/

/-- Only the last member is where it was after it was taken out and added again. -/
theorem Members.eq_append_of_put_erase {α : Type} {members : Members α} {name : String} {value : α}
    (h : (keys members).Nodup) (hback : put (erase members name) name value = members) :
    members = erase members name ++ [(name, value)] := by
  rw [put_of_get?_eq_none (get?_erase_self h name)] at hback
  exact hback.symm

namespace Json

/-- A member that was removed and added again is where it was only if it is the last one. -/
theorem lastMember_of_add_back (doc : Document) {reduced value : Json} {c : Pointer} {step : Step}
    {members : List (String × Json)} (hmembers : doc.1.select c = some (object members))
    (hreduced : doc.1.remove (c ++ [step]) = .ok reduced)
    (hback : reduced.add (c ++ [step]) value = .ok doc.1) : doc.1.LastMember (c ++ [step]) := by
  have hnodup := doc.nodup_keys hmembers
  rcases Edit.exists_replace_of_apply_concat hmembers hreduced with ⟨left, hleft, hput⟩
  rcases Edit.exists_replace_of_apply_concat (select_of_replace_eq_ok hput) hback with
    ⟨again, hagain, hdone⟩
  cases hleft with
  | @removeMember members step name hname =>
    cases hagain with
    | @addMember left step name' value hname' =>
      obtain rfl : name = name' := Option.some.inj (hname.symm.trans hname')
      have hfound := select_of_replace_eq_ok hdone
      rw [hmembers, Option.some.injEq, Json.object.injEq] at hfound
      have hlast := Members.eq_append_of_put_erase hnodup hfound.symm
      exact ⟨c, step, Members.erase members name, name, value, rfl, hlast ▸ hmembers, hname⟩

/-! ## Moves -/

/-- A step that is written alike adds to what is left of a value as the step that removed did. -/
theorem lastStep_add_of_text_eq {node old other left out value : Json} {s t : Step}
    (hs : node.child? s = some old) (ht : node.child? t = some other) (htext : s.text = t.text)
    (hleft : Edit.LastStep .remove node s (.ok left))
    (hadd : Edit.LastStep (.add value) left s (.ok out)) :
    Edit.LastStep (.add value) left t (.ok out) := by
  rcases eq_or_asKey?_eq_of_text_eq hs ht htext with heq | ⟨members, hmembers, hname⟩
  · rw [← heq]
    exact hadd
  · subst hmembers
    cases hleft with
    | removeMember =>
      cases hadd with
      | addMember hs => exact .addMember (hname.symm.trans hs)

/-- A value that was removed is added again by each pointer that is written like its own. -/
theorem add_of_text_eq {doc reduced out value other : Json} {p q : Pointer}
    (hp : doc.select p = some value) (hq : doc.select q = some other)
    (htext : p.map Step.text = q.map Step.text) (hreduced : doc.remove p = .ok reduced)
    (hadd : reduced.add p value = .ok out) : reduced.add q value = .ok out := by
  rcases p.eq_nil_or_concat' with hnil | ⟨c, s, hconcat⟩
  · subst hnil
    obtain rfl : q = [] := by simpa using htext.symm
    exact hadd
  · rcases q.eq_nil_or_concat' with hnil | ⟨c', t, hconcat'⟩
    · simp [hconcat, hnil] at htext
    · subst hconcat hconcat'
      rw [List.map_append, List.map_append] at htext
      have hparts := List.append_inj' htext rfl
      have hsteps : s.text = t.text := (List.cons.inj hparts.2).1
      rw [select_append, Option.bind_eq_some_iff] at hp hq
      rcases hp with ⟨node, hnode, hpart⟩
      rcases hq with ⟨node', hnode', hpart'⟩
      obtain rfl := select_eq_of_text_eq hnode hnode' hparts.1
      rw [select, Option.bind_eq_some_iff] at hpart hpart'
      rcases hpart with ⟨old, hold, -⟩
      rcases hpart' with ⟨old', hold', -⟩
      rcases Edit.exists_replace_of_apply_concat hnode hreduced with ⟨left, hleft, hput⟩
      have hput' : doc.replace c' left = .ok reduced := by
        rw [← replace_eq_of_text_eq hnode hnode' hparts.1, hput]
      rcases Edit.exists_replace_of_apply_concat (select_of_replace_eq_ok hput) hadd with
        ⟨again, hagain, hout⟩
      have hagain' := lastStep_add_of_text_eq hold hold' hsteps hleft hagain
      calc reduced.add (c' ++ [t]) value
        _ = reduced.replace c' again :=
          Edit.apply_concat_of_lastStep (select_of_replace_eq_ok hput') hagain'
        _ = doc.replace c' again := replace_replace hnode' hput' again
        _ = doc.replace c again := (replace_eq_of_text_eq hnode hnode' hparts.1 again).symm
        _ = reduced.replace c again := (replace_replace hnode hput again).symm
        _ = .ok out := hout

/-- A move of a value onto itself, by any two pointers that lead to it and are written alike.  It
succeeds with an equal document.  It leaves the document as it was exactly if the pointers are the
same, or the value is an item, or it is the last member of its object: any other member goes to
the end. -/
theorem move_onto_itself {doc value other : Json} {source target : Pointer}
    (hdoc : doc.DistinctNames) (hsource : doc.select source = some value)
    (htarget : doc.select target = some other) (htext : source.render = target.render) :
    ∃ out, doc.move source target = .ok out ∧ out.Same doc ∧
      (out = doc ↔ source = target ∨ doc.InArray source ∨ doc.LastMember source) := by
  have hsteps := Pointer.map_text_eq_of_text_eq (String.ofList_inj.mp htext)
  by_cases hidle : source = target
  · refine ⟨doc, ?_, same_self hdoc, fun _ => .inl hidle, fun _ => rfl⟩
    rw [← hidle]
    exact move_self doc source
  · have hlength : source.length = target.length := by simpa using congrArg List.length hsteps
    have hbelow : target.isBelow source = false := by simp [Pointer.isBelow, hlength]
    rcases move_eq_add hsource hidle hbelow with ⟨reduced, hreduced, hmove⟩
    rcases Edit.add_back_of_remove ⟨doc, hdoc⟩ hreduced hsource with ⟨out, hadd, hsame, hplace⟩
    have hout : doc.move source target = .ok out := by
      rw [hmove, add_of_text_eq hsource htarget hsteps hreduced hadd]
    refine ⟨out, hout, hsame, ?_, ?_⟩
    · intro hback
      subst hback
      rcases source.eq_nil_or_concat' with hnil | ⟨c, step, hconcat⟩
      · have hroot : target = [] := List.eq_nil_of_length_eq_zero (by rw [← hlength, hnil]; rfl)
        exact absurd (hnil.trans hroot.symm) hidle
      · subst hconcat
        rw [select_append, Option.bind_eq_some_iff] at hsource
        rcases hsource with ⟨node, hnode, hpart⟩
        cases node with
        | object members => exact .inr (.inr (lastMember_of_add_back ⟨_, hdoc⟩ hnode hreduced hadd))
        | array items => exact .inr (.inl ⟨c, step, items, rfl, hnode⟩)
        | _ => simp [select, child?] at hpart
    · intro hwhere
      exact hplace (.inr (hwhere.resolve_left hidle))

/-- An item is moved onto itself below a member with two pointers, and stays where it is. -/
theorem move_onto_itself_below_numeral_name :
    (object [("0", array [null, ofInt 1]), ("b", null)]).DistinctNames ∧
      (object [("0", array [null, ofInt 1]), ("b", null)]).select [.key "0", .index 1] =
        some (ofInt 1) ∧
      (object [("0", array [null, ofInt 1]), ("b", null)]).select [.index 0, .index 1] =
        some (ofInt 1) ∧
      Pointer.render [.key "0", .index 1] = Pointer.render [.index 0, .index 1] ∧
      (object [("0", array [null, ofInt 1]), ("b", null)]).move [.key "0", .index 1]
          [.index 0, .index 1] =
        .ok (object [("0", array [null, ofInt 1]), ("b", null)]) := by
  have hdoc : (object [("0", array [null, ofInt 1]), ("b", null)]).DistinctNames := by decide
  have hsource : (object [("0", array [null, ofInt 1]), ("b", null)]).select
      [.key "0", .index 1] = some (ofInt 1) := rfl
  have htarget : (object [("0", array [null, ofInt 1]), ("b", null)]).select
      [.index 0, .index 1] = some (ofInt 1) := rfl
  have htext : Pointer.render [.key "0", .index 1] = Pointer.render [.index 0, .index 1] := rfl
  rcases move_onto_itself hdoc hsource htarget htext with ⟨out, hmove, -, hback⟩
  have hitem : out = object [("0", array [null, ofInt 1]), ("b", null)] :=
    hback.mpr (.inr (.inl ⟨[.key "0"], .index 1, _, rfl, rfl⟩))
  rw [hitem] at hmove
  exact ⟨hdoc, hsource, htarget, htext, hmove⟩

/-- The first of two members is moved onto itself, from its name to the index that is written
alike, and is the second one afterwards. -/
theorem move_onto_itself_reorders :
    (object [("0", ofInt 1), ("a", ofInt 2)]).select [.key "0"] = some (ofInt 1) ∧
      (object [("0", ofInt 1), ("a", ofInt 2)]).select [.index 0] = some (ofInt 1) ∧
      Pointer.render [.key "0"] = Pointer.render [.index 0] ∧
      (object [("0", ofInt 1), ("a", ofInt 2)]).move [.key "0"] [.index 0] =
        .ok (object [("a", ofInt 2), ("0", ofInt 1)]) ∧
      (object [("a", ofInt 2), ("0", ofInt 1)]).compact ≠
        (object [("0", ofInt 1), ("a", ofInt 2)]).compact :=
  ⟨rfl, rfl, rfl, rfl, by decide +kernel⟩

end Json

end JsonEdit
