import JsonEdit.Proofs.Json.Shape
import JsonEdit.Proofs.Pointer.Factor

/-!
# What an edit leaves alone

An edit changes one place of a document.  This module proves what stays as it was.

There are four groups.

* A part put in its place.  `Edit.withPart` changes one part of a value and nothing else:
  the other parts, the kind, the names and the number of parts stay.
* Apart pointers.  `Json.Apart` says that a second pointer leaves the first one at an object
  by another name, or at an array above the last step by another index.  Steps are
  compared by where they lead, since an index and a name can lead to one member.
  `select_of_apart` is the frame law for such pointers.
* Items.  An array shifts behind an item that comes or goes, and
  `select_insertItem`, `select_removeItem` and their companions say where each item is
  found afterwards.
* The whole law.  `select_of_replace` finds the value that an edit put in place,
  `select_of_replace_of_apart` finds the values beside it, and `frame_of_apply` is the assembly.
-/

namespace JsonEdit

namespace Json

/-- In an object, steps with one name lead to one member. -/
theorem child?_object_congr {s t : Step} (hname : s.asKey? = t.asKey?)
    (members : List (String × Json)) : (object members).child? s = (object members).child? t := by
  simp only [child?, hname]

/-- A step that leads to a member of an object has its name. -/
theorem exists_name_of_child? {members : List (String × Json)} {step : Step} {child : Json}
    (h : (object members).child? step = some child) :
    ∃ name, step.asKey? = some name ∧ Members.get? members name = some child := by
  rwa [child?, Option.bind_eq_some_iff] at h

theorem select_cons {node child : Json} {step : Step} (hchild : node.child? step = some child)
    (p : Pointer) : node.select (step :: p) = child.select p := by
  rw [select, hchild, Option.bind_some]

end Json

namespace Edit

open Json

/-! ## A part put in its place -/

theorem child?_withPart_self {node old : Json} {step : Step}
    (hold : node.child? step = some old) (value : Json) :
    (withPart value node step).child? step = some value := by
  cases node with
  | object members =>
    obtain ⟨name, hname, -⟩ := exists_name_of_child? hold
    simp [withPart, child?, hname, Members.get?_put_self]
  | array items =>
    cases step with
    | index i =>
      rw [child?, List.getElem?_eq_some_iff] at hold
      obtain ⟨hi, -⟩ := hold
      simp [withPart, child?, hi]
    | key name | pastEnd => simp [child?] at hold
  | _ => simp [child?] at hold

/-- A part of an object that was put in its place by one step is found by each step with the
same name. -/
theorem child?_withPart_of_asKey?_eq {members : List (String × Json)} {s t : Step} {old : Json}
    (hname : s.asKey? = t.asKey?) (hold : (object members).child? s = some old) (value : Json) :
    (withPart value (object members) s).child? t = some value := by
  rw [← child?_withPart_self hold value]
  obtain ⟨name, hs, -⟩ := exists_name_of_child? hold
  simp only [withPart, hs]
  exact (child?_object_congr hname _).symm

@[simp]
theorem kind_withPart (value node : Json) (step : Step) :
    (withPart value node step).kind = node.kind := by
  cases node with
  | object members =>
    rw [withPart]
    split <;> rfl
  | array items => cases step <;> rfl
  | _ => rfl

theorem names_withPart {node old : Json} {step : Step} (hold : node.child? step = some old)
    (value : Json) : (withPart value node step).names = node.names := by
  cases node with
  | object members =>
    obtain ⟨name, hname, hget⟩ := exists_name_of_child? hold
    have hmem : name ∈ Members.keys members := by
      cases Decidable.em (name ∈ Members.keys members) with
      | inl hin => exact hin
      | inr hout => simp [Members.get?_eq_none_iff.mpr hout] at hget
    simp only [withPart, hname, names]
    rw [Members.keys_put, if_pos hmem]
  | array items => cases step <;> rfl
  | _ => rfl

theorem size_withPart {node old : Json} {step : Step} (hold : node.child? step = some old)
    (value : Json) : (withPart value node step).size = node.size := by
  have hnames := congrArg List.length (names_withPart hold value)
  cases node with
  | object members =>
    obtain ⟨name, hname, -⟩ := exists_name_of_child? hold
    simpa [withPart, hname, names, size, Members.keys] using hnames
  | array items => cases step <;> simp [withPart, size]
  | _ => rfl

end Edit

/-! ## Apart pointers -/

/-- The second pointer leaves the first one: at an object by another name, or at an array,
above the last step of the first pointer, by another index.  Up to there the steps of both
lead to the same parts, though an index and a name can lead to the same member. -/
inductive Json.Apart : Json → Pointer → Pointer → Prop where
  | member {members : List (String × Json)} {s t : Step} {p q : Pointer}
      (hname : s.asKey? ≠ t.asKey?) : Apart (.object members) (s :: p) (t :: q)
  | item {items : List Json} {i j : Nat} {s : Step} {p q : Pointer} (hij : i ≠ j) :
      Apart (.array items) (.index i :: s :: p) (.index j :: q)
  | belowMember {members : List (String × Json)} {s t : Step} {child : Json} {p q : Pointer}
      (hname : s.asKey? = t.asKey?) (hchild : (Json.object members).child? s = some child)
      (hapart : Apart child p q) : Apart (.object members) (s :: p) (t :: q)
  | belowItem {items : List Json} {i : Nat} {child : Json} {p q : Pointer}
      (hchild : (Json.array items).child? (.index i) = some child)
      (hapart : Apart child p q) : Apart (.array items) (.index i :: p) (.index i :: q)

namespace Edit

open Json

theorem ne_nil_of_apart {node : Json} {p q : Pointer} (h : Apart node p q) : p ≠ [] := by
  cases h <;> simp

/-- An edit at or below a member leaves the members with other names as they are. -/
theorem exists_members_of_apply {edit : Edit} {members : List (String × Json)} {step : Step}
    {p : Pointer} {out : Json} (h : edit.apply (.object members) (step :: p) = .ok out) :
    ∃ name changed, step.asKey? = some name ∧ out = .object changed ∧
      ∀ other, name ≠ other → Members.get? changed other = Members.get? members other := by
  by_cases hp : p = []
  · subst hp
    cases apply_singleton_iff.mp h with
    | addMember hname | replaceMember hname =>
      exact ⟨_, _, hname, rfl, fun other hne => Members.get?_put_of_ne hne members _⟩
    | removeMember hname =>
      exact ⟨_, _, hname, rfl, fun other hne => Members.get?_erase_of_ne hne members⟩
  · obtain ⟨child, changed, hchild, -, rfl⟩ := (apply_cons_eq_ok_iff hp).mp h
    obtain ⟨name, hname, -⟩ := exists_name_of_child? hchild
    refine ⟨name, Members.put members name changed, hname, by simp [withPart, hname], ?_⟩
    exact fun other hne => Members.get?_put_of_ne hne members changed

/-- Where a pointer leaves that of an edit, it leads after the edit to what it led to
before. -/
theorem select_of_apart {edit : Edit} {doc out : Json} {p q : Pointer} (hapart : Apart doc p q)
    (h : edit.apply doc p = .ok out) : out.select q = doc.select q := by
  induction hapart generalizing out with
  | @member members s t p q hne =>
    obtain ⟨name, changed, hname, rfl, hother⟩ := exists_members_of_apply h
    have hchild : (object changed).child? t = (object members).child? t := by
      cases ht : t.asKey? with
      | none => simp [child?, ht]
      | some other =>
        have hnames : name ≠ other := fun heq => hne (by rw [hname, ht, heq])
        simp [child?, ht, hother other hnames]
    rw [select, select, hchild]
  | @item items i j s p q hij =>
    obtain ⟨child, changed, hchild, -, rfl⟩ := (apply_cons_eq_ok_iff (by simp)).mp h
    simp [withPart, select, child?, hij]
  | @belowMember members s t child p q hname hchild hapart ih =>
    obtain ⟨changed, hchanged, rfl⟩ :=
      exists_withPart_of_apply_cons (ne_nil_of_apart hapart) hchild h
    rw [select_cons (child?_withPart_of_asKey?_eq hname hchild changed), ih hchanged,
      select_cons ((child?_object_congr hname members).symm.trans hchild)]
  | @belowItem items i child p q hchild hapart ih =>
    obtain ⟨changed, hchanged, rfl⟩ :=
      exists_withPart_of_apply_cons (ne_nil_of_apart hapart) hchild h
    rw [select_cons (child?_withPart_self hchild changed), ih hchanged, select_cons hchild]

/-! ## Items -/

/-- After a value has been replaced, its pointer leads to what replaced it. -/
theorem select_of_replace {doc node out value : Json} {c : Pointer}
    (hnode : doc.select c = some node) (hout : doc.replace c value = .ok out) (q : Pointer) :
    out.select (c ++ q) = value.select q := by
  induction c generalizing doc out with
  | nil =>
    obtain rfl : value = out := by simpa [Json.replace, apply, atRoot] using hout
    rfl
  | cons step rest ih =>
    rw [select, Option.bind_eq_some_iff] at hnode
    obtain ⟨child, hchild, hrest⟩ := hnode
    obtain ⟨changed, hchanged, rfl⟩ := exists_withPart_of_replace_cons hchild hout
    rw [List.cons_append, select_cons (child?_withPart_self hchild changed), ih hrest hchanged]

/-- Where an array was exchanged for another value, a pointer that leaves the way to a place in
the array leads to what it led to before.  It leaves that way above the array, because inside of
an array pointers part above the last step only. -/
theorem select_of_replace_of_apart {doc out value : Json} {c q : Pointer} {items : List Json}
    {step : Step} (hitems : doc.select c = some (.array items))
    (hapart : Apart doc (c ++ [step]) q) (hout : doc.replace c value = .ok out) :
    out.select q = doc.select q := by
  induction c generalizing doc out q with
  | nil =>
    cases hitems
    rw [List.nil_append] at hapart
    cases hapart with
    | belowItem hpart hbelow => exact absurd rfl (ne_nil_of_apart hbelow)
  | cons first rest ih =>
    rw [select, Option.bind_eq_some_iff] at hitems
    obtain ⟨child, hchild, hrest⟩ := hitems
    obtain ⟨changed, hchanged, rfl⟩ := exists_withPart_of_replace_cons hchild hout
    rw [List.cons_append] at hapart
    generalize hway : rest ++ [step] = way at hapart
    cases hapart with
    | member hne => exact select_of_apart (.member hne) hout
    | item hij => simp [withPart, select, child?, hij]
    | belowMember hname hpart hbelow =>
      cases hchild.symm.trans hpart
      rw [← hway] at hbelow
      rw [select_cons (child?_withPart_of_asKey?_eq hname hchild changed),
        ih hrest hbelow hchanged, select_cons ((child?_object_congr hname _).symm.trans hchild)]
    | belowItem hpart hbelow =>
      cases hchild.symm.trans hpart
      rw [← hway] at hbelow
      rw [select_cons (child?_withPart_self hchild changed), ih hrest hbelow hchanged,
        select_cons hchild]

/-- An item of an array that has been edited, found from the root of the document. -/
theorem select_item_of_replace {doc out : Json} {c : Pointer} {items changed : List Json}
    (hitems : doc.select c = some (.array items))
    (hout : doc.replace c (.array changed) = .ok out) {j k : Nat} (hjk : changed[j]? = items[k]?)
    (r : Pointer) :
    out.select (c ++ .index j :: r) = doc.select (c ++ .index k :: r) := by
  rw [select_of_replace hitems hout, select_append, hitems, Option.bind_some, select, select,
    child?, child?, hjk]

/-- An edit of a part of an array, with the array that it puts in place. -/
theorem exists_replace_of_apply_concat {edit : Edit} {doc node out : Json} {c : Pointer}
    {step : Step} (hnode : doc.select c = some node)
    (h : edit.apply doc (c ++ [step]) = .ok out) :
    ∃ changed, LastStep edit node step (.ok changed) ∧ doc.replace c changed = .ok out := by
  obtain ⟨node', changed, hnode', hchanged, hout⟩ :=
    (apply_append_eq_ok_iff (List.cons_ne_nil step [])).mp h
  obtain rfl : node = node' := by simpa [hnode] using hnode'
  exact ⟨changed, apply_singleton_iff.mp hchanged, hout⟩

/-- To insert an item moves those at its index and behind it on by one. -/
theorem select_insertItem {doc out value : Json} {c : Pointer} {items : List Json} {i : Nat}
    (hitems : doc.select c = some (.array items))
    (h : (add value).apply doc (c ++ [.index i]) = .ok out) (j : Nat) (r : Pointer) :
    (j < i → out.select (c ++ .index j :: r) = doc.select (c ++ .index j :: r)) ∧
      (i < j → out.select (c ++ .index j :: r) = doc.select (c ++ .index (j - 1) :: r)) := by
  obtain ⟨changed, hlast, hout⟩ := exists_replace_of_apply_concat hitems h
  cases hlast with
  | insertItem hi =>
    refine ⟨fun hji => ?_, fun hij => ?_⟩
    · exact select_item_of_replace hitems hout (List.getElem?_insertIdx_of_lt hji) r
    · exact select_item_of_replace hitems hout (List.getElem?_insertIdx_of_gt hij) r

/-- To remove an item moves those behind it back by one. -/
theorem select_removeItem {doc out : Json} {c : Pointer} {items : List Json} {i : Nat}
    (hitems : doc.select c = some (.array items))
    (h : remove.apply doc (c ++ [.index i]) = .ok out) (j : Nat) (r : Pointer) :
    (j < i → out.select (c ++ .index j :: r) = doc.select (c ++ .index j :: r)) ∧
      (i ≤ j → out.select (c ++ .index j :: r) = doc.select (c ++ .index (j + 1) :: r)) := by
  obtain ⟨changed, hlast, hout⟩ := exists_replace_of_apply_concat hitems h
  cases hlast with
  | removeItem hi =>
    refine ⟨fun hji => ?_, fun hij => ?_⟩
    · exact select_item_of_replace hitems hout (List.getElem?_eraseIdx_of_lt hji) r
    · exact select_item_of_replace hitems hout (List.getElem?_eraseIdx_of_ge hij) r

/-- To replace an item moves no item. -/
theorem select_replaceItem {doc out value : Json} {c : Pointer} {items : List Json} {i : Nat}
    (hitems : doc.select c = some (.array items))
    (h : (replace value).apply doc (c ++ [.index i]) = .ok out) {j : Nat} (hne : j ≠ i)
    (r : Pointer) : out.select (c ++ .index j :: r) = doc.select (c ++ .index j :: r) := by
  obtain ⟨changed, hlast, hout⟩ := exists_replace_of_apply_concat hitems h
  cases hlast with
  | replaceItem hi => exact select_item_of_replace hitems hout (List.getElem?_set_ne hne.symm) r

/-- To append an item moves no item. -/
theorem select_appendItem {doc out value : Json} {c : Pointer} {items : List Json}
    (hitems : doc.select c = some (.array items))
    (h : (add value).apply doc (c ++ [.pastEnd]) = .ok out) {j : Nat} (hj : j < items.length)
    (r : Pointer) : out.select (c ++ .index j :: r) = doc.select (c ++ .index j :: r) := by
  obtain ⟨changed, hlast, hout⟩ := exists_replace_of_apply_concat hitems h
  cases hlast with
  | appendItem => exact select_item_of_replace hitems hout (List.getElem?_append_left hj) r

/-! ## The whole law -/

/-- An edit keeps the kind, the names and the number of parts of every value that it passes
through before the one that it edits. -/
theorem select_above_of_apply {edit : Edit} {doc out : Json} {b rest : Pointer} {step : Step}
    (hrest : rest ≠ []) (h : edit.apply doc (b ++ step :: rest) = .ok out) :
    ∃ node changed, doc.select b = some node ∧ out.select b = some changed ∧
      changed.kind = node.kind ∧ changed.names = node.names ∧ changed.size = node.size := by
  obtain ⟨node, changed, hnode, hchanged, hout⟩ :=
    (apply_append_eq_ok_iff (List.cons_ne_nil step rest)).mp h
  obtain ⟨child, part, hchild, -, rfl⟩ := (apply_cons_eq_ok_iff hrest).mp hchanged
  refine ⟨node, withPart part node step, hnode, ?_, kind_withPart part node step,
    names_withPart hchild part, size_withPart hchild part⟩
  have hplace := select_of_replace hnode hout []
  rwa [List.append_nil] at hplace

/-- The frame law.  A pointer that leaves that of an edit leads to what it led to before.
The items of an edited array move by the one that comes or goes.  Every container above the
edited one keeps its kind, its names in their order and its size. -/
theorem frame_of_apply {edit : Edit} {doc out : Json} {c : Pointer} {step : Step}
    (h : edit.apply doc (c ++ [step]) = .ok out) :
    (∀ q, Apart doc (c ++ [step]) q → out.select q = doc.select q) ∧
      (∀ items i j r, doc.select c = some (.array items) → step = .index i →
        (∀ value, edit = add value →
          (j < i → out.select (c ++ .index j :: r) = doc.select (c ++ .index j :: r)) ∧
          (i < j → out.select (c ++ .index j :: r) = doc.select (c ++ .index (j - 1) :: r))) ∧
        (edit = remove →
          (j < i → out.select (c ++ .index j :: r) = doc.select (c ++ .index j :: r)) ∧
          (i ≤ j → out.select (c ++ .index j :: r) = doc.select (c ++ .index (j + 1) :: r))) ∧
        (∀ value, edit = replace value → j ≠ i →
          out.select (c ++ .index j :: r) = doc.select (c ++ .index j :: r))) ∧
      (∀ items j r value, doc.select c = some (.array items) → step = .pastEnd →
        edit = add value → j < items.length →
        out.select (c ++ .index j :: r) = doc.select (c ++ .index j :: r)) ∧
      (∀ b next rest, c = b ++ next :: rest →
        ∃ node changed, doc.select b = some node ∧ out.select b = some changed ∧
          changed.kind = node.kind ∧ changed.names = node.names ∧ changed.size = node.size) := by
  refine ⟨fun q hq => select_of_apart hq h, ?_, ?_, ?_⟩
  · rintro items i j r hitems rfl
    refine ⟨?_, ?_, ?_⟩
    · rintro value rfl
      exact select_insertItem hitems h j r
    · rintro rfl
      exact select_removeItem hitems h j r
    · rintro value rfl hne
      exact select_replaceItem hitems h hne r
  · rintro items j r value hitems rfl rfl hj
    exact select_appendItem hitems h hj r
  · rintro b next rest rfl
    rw [List.append_assoc, List.cons_append] at h
    exact select_above_of_apply (List.append_ne_nil_of_right_ne_nil rest (by simp)) h

/-- The second of three items goes.  The first one and a member with another name, which an
index names here, stay where they are, and the third one is found where the second was. -/
theorem frame_of_apply_remove_second :
    remove.apply
        (object [("0", null), ("a", array [ofInt 1, ofInt 2, object [("x", ofInt 3)]])])
        ([.key "a"] ++ [.index 1]) =
      .ok (object [("0", null), ("a", array [ofInt 1, object [("x", ofInt 3)]])]) ∧
    (object [("0", null), ("a", array [ofInt 1, object [("x", ofInt 3)]])]).select [.index 0] =
      (object [("0", null), ("a", array [ofInt 1, ofInt 2, object [("x", ofInt 3)]])]).select
        [.index 0] ∧
    (object [("0", null), ("a", array [ofInt 1, object [("x", ofInt 3)]])]).select
        [.key "a", .index 1, .key "x"] =
      (object [("0", null), ("a", array [ofInt 1, ofInt 2, object [("x", ofInt 3)]])]).select
        [.key "a", .index 2, .key "x"] := by
  have hedit : remove.apply
      (object [("0", null), ("a", array [ofInt 1, ofInt 2, object [("x", ofInt 3)]])])
      ([.key "a"] ++ [.index 1]) =
    .ok (object [("0", null), ("a", array [ofInt 1, object [("x", ofInt 3)]])]) := by rfl
  obtain ⟨hapart, hitems, -, -⟩ := frame_of_apply hedit
  refine ⟨hedit, hapart [.index 0] (.member (by decide)), ?_⟩
  exact ((hitems _ 1 1 [.key "x"] rfl rfl).2.1 rfl).2 (Nat.le_refl 1)

end Edit

end JsonEdit
