import JsonEdit.Pointer.Edit
import JsonEdit.Proofs.Pointer.Resolve

/-!
# Edits factor through their pointers

An edit walks down a pointer, changes one value and rebuilds the values above it.  This
module proves that the walk can be cut anywhere: an edit below a pointer is the same edit
at the value that the pointer leads to, put back with `replace`.

There are five groups.

* The way down.  `intermediate_eq` says that an edit goes the way of a lookup, and
  `Pointer.Error.onTheWay` is the change that it makes to the errors of that lookup.
* One step.  `apply_cons` takes an edit apart at the first step of its pointer and
  `replace_cons` does the same for `replace`, which needs no second step.
* Whole pointers.  `apply_append` cuts an edit at a value, `apply_of_resolve_error` says
  what happens where there is none, and `apply_append_eq_ok_iff` is what both say of an
  edit that succeeds.
* The last step.  `Edit.LastStep` lists what each edit makes of one part of a value, and
  `apply_singleton_iff` says that the list is complete and that its rules exclude each
  other.  `apply_concat_of_lastStep` carries a rule to the place where the value stands.
* Sites of errors.  `exists_site?_of_apply_error` says that every error of an edit names a
  beginning of its pointer.
-/

namespace JsonEdit

/-! ## The way down -/

namespace Pointer.Error

/-- The error of an edit for the error of the lookup that it begins with.  A value that is
not there is a value that the edit cannot pass through. -/
def onTheWay : Error → Error
  | notFound site => missingIntermediate site
  | e => e

theorem onTheWay_below (step : Step) (e : Error) :
    (e.below step).onTheWay = e.onTheWay.below step := by
  cases e <;> rfl

@[simp]
theorem site?_onTheWay (e : Error) : e.onTheWay.site? = e.site? := by
  cases e <;> rfl

end Pointer.Error

namespace Edit

/-- An edit passes through the value that a lookup finds, and fails where it fails. -/
theorem intermediate_eq (node : Json) (step : Step) :
    intermediate node step = (node.follow step).mapError (·.onTheWay) := by
  cases node with
  | object members =>
    cases step with
    | pastEnd => rfl
    | index i | key name =>
      simp only [intermediate, Json.follow, Step.asKey?, Option.bind_some]
      cases Members.get? members _ <;> rfl
  | array items =>
    cases step with
    | index i =>
      simp only [intermediate, Json.follow]
      cases items[i]? <;> rfl
    | key name | pastEnd => rfl
  | _ => cases step <;> rfl

theorem intermediate_of_child? {node child : Json} {step : Step}
    (h : node.child? step = some child) : intermediate node step = .ok child := by
  rw [intermediate_eq, Json.child?_eq_some_iff.mp h]
  rfl

/-! ## One step -/

/-- What an edit gives at a value, from what it gives at the part that a step leads to. -/
def around (node : Json) (step : Step) : Except Pointer.Error Json → Except Pointer.Error Json
  | .ok changed => .ok (withPart changed node step)
  | .error e => .error (e.below step)

/-- An edit with more than one step edits the part that the first step leads to. -/
theorem apply_cons {node child : Json} {step : Step} (edit : Edit)
    (hchild : node.child? step = some child) {p : Pointer} (hp : p ≠ []) :
    edit.apply node (step :: p) = around node step (edit.apply child p) := by
  obtain ⟨next, rest, rfl⟩ := List.exists_cons_of_ne_nil hp
  rw [apply, intermediate_of_child? hchild]
  cases h : edit.apply child (next :: rest) <;> simp [around, h]

/-- An edit with more than one step fails if its first step leads nowhere. -/
theorem apply_cons_of_child?_eq_none {node : Json} {step : Step} (edit : Edit)
    (hchild : node.child? step = none) {p : Pointer} (hp : p ≠ []) :
    edit.apply node (step :: p) = .error (node.deadEnd [step] step).onTheWay := by
  obtain ⟨next, rest, rfl⟩ := List.exists_cons_of_ne_nil hp
  rw [apply, intermediate_eq, Json.follow_of_child?_eq_none hchild]
  rfl

/-- An edit with more than one step succeeds exactly if the edit of the part that the first
step leads to does, and puts the edited part in its place. -/
theorem apply_cons_eq_ok_iff {edit : Edit} {node out : Json} {step : Step} {p : Pointer}
    (hp : p ≠ []) :
    edit.apply node (step :: p) = .ok out ↔
      ∃ child changed, node.child? step = some child ∧ edit.apply child p = .ok changed ∧
        withPart changed node step = out := by
  cases hchild : node.child? step with
  | none => simp [apply_cons_of_child?_eq_none edit hchild hp]
  | some child =>
    rw [apply_cons edit hchild hp]
    cases houtcome : edit.apply child p <;> simp [around, houtcome]

/-- An edit with more than one step fails because its first step leads nowhere, or as the edit of
the part that the step leads to. -/
theorem cases_of_apply_cons_error {edit : Edit} {node : Json} {step : Step} {p : Pointer}
    {e : Pointer.Error} (hp : p ≠ []) (h : edit.apply node (step :: p) = .error e) :
    e = (node.deadEnd [step] step).onTheWay ∨
      ∃ child inner, edit.apply child p = .error inner ∧ e = inner.below step := by
  cases hchild : node.child? step with
  | none =>
    rw [apply_cons_of_child?_eq_none edit hchild hp] at h
    exact .inl (Except.error.inj h).symm
  | some child =>
    rw [apply_cons edit hchild hp] at h
    cases houtcome : edit.apply child p with
    | ok changed => simp [houtcome, around] at h
    | error inner =>
      refine .inr ⟨child, inner, houtcome, ?_⟩
      simpa [houtcome, around, eq_comm] using h

/-- An edit that succeeds below a part that is there, from the edit of that part. -/
theorem exists_withPart_of_apply_cons {edit : Edit} {node child out : Json} {step : Step}
    {p : Pointer} (hp : p ≠ []) (hchild : node.child? step = some child)
    (h : edit.apply node (step :: p) = .ok out) :
    ∃ changed, edit.apply child p = .ok changed ∧ out = withPart changed node step := by
  obtain ⟨other, changed, hother, hchanged, hout⟩ := (apply_cons_eq_ok_iff hp).mp h
  obtain rfl : child = other := by simpa [hchild] using hother
  exact ⟨changed, hchanged, hout.symm⟩

/-- To replace a part that is there is to put another value in its place. -/
theorem replace_singleton {node child : Json} {step : Step}
    (hchild : node.child? step = some child) (value : Json) :
    node.replace [step] value = .ok (withPart value node step) := by
  cases node with
  | object members =>
    cases step with
    | pastEnd => simp [Json.child?, Step.asKey?] at hchild
    | index i | key name => rfl
  | array items =>
    cases step with
    | index i =>
      rw [Json.child?, List.getElem?_eq_some_iff] at hchild
      obtain ⟨hi, -⟩ := hchild
      simp [Json.replace, apply, atStep, atItem?, Items.replace?, hi, withPart]
    | key name | pastEnd => simp [Json.child?] at hchild
  | _ => simp [Json.child?] at hchild

/-- To replace a value is to replace it in the part that the first step leads to. -/
theorem replace_cons {node child : Json} {step : Step}
    (hchild : node.child? step = some child) (p : Pointer) (value : Json) :
    node.replace (step :: p) value = around node step (child.replace p value) := by
  by_cases hp : p = []
  · subst hp
    exact replace_singleton hchild value
  · exact apply_cons (.replace value) hchild hp

/-- A replacement that succeeds at or below a part that is there, from the replacement in that
part. -/
theorem exists_withPart_of_replace_cons {node child out value : Json} {step : Step} {p : Pointer}
    (hchild : node.child? step = some child) (h : node.replace (step :: p) value = .ok out) :
    ∃ changed, child.replace p value = .ok changed ∧ out = withPart changed node step := by
  rw [replace_cons hchild] at h
  cases hinner : child.replace p value with
  | error e => simp [hinner, around] at h
  | ok changed => exact ⟨changed, rfl, by simpa [hinner, around, eq_comm] using h⟩

/-! ## Whole pointers -/

/-- A value that a pointer leads to can be replaced. -/
theorem exists_replace_eq_ok {doc node : Json} {c : Pointer} (h : doc.select c = some node)
    (value : Json) : ∃ out, doc.replace c value = .ok out := by
  induction c generalizing doc with
  | nil => exact ⟨value, rfl⟩
  | cons step rest ih =>
    rw [Json.select, Option.bind_eq_some_iff] at h
    obtain ⟨child, hchild, hrest⟩ := h
    obtain ⟨changed, hchanged⟩ := ih hrest
    refine ⟨withPart changed doc step, ?_⟩
    rw [replace_cons hchild, hchanged, around]

/-- An edit below a value that a pointer leads to succeeds with the edited value in its
place, or fails as it does from that value, with the pointer in front of the site. -/
theorem apply_append {doc node : Json} {c : Pointer} (edit : Edit)
    (h : doc.select c = some node) {p : Pointer} (hp : p ≠ []) :
    edit.apply doc (c ++ p) =
      match edit.apply node p with
      | .ok changed => doc.replace c changed
      | .error e => .error (e.under c) := by
  induction c generalizing doc with
  | nil =>
    obtain rfl : doc = node := by simpa [Json.select] using h
    rw [List.nil_append]
    cases edit.apply doc p <;> rfl
  | cons step rest ih =>
    rw [Json.select, Option.bind_eq_some_iff] at h
    obtain ⟨child, hchild, hrest⟩ := h
    have hne : rest ++ p ≠ [] := List.append_ne_nil_of_right_ne_nil rest hp
    rw [List.cons_append, apply_cons edit hchild hne, ih hrest]
    cases edit.apply node p with
    | ok changed => exact (replace_cons hchild rest changed).symm
    | error e => rfl

/-- An edit below a pointer that leads nowhere fails where the lookup fails. -/
theorem apply_of_resolve_error {doc : Json} {c : Pointer} {e : Pointer.Error} (edit : Edit)
    (h : doc.resolve c = .error e) {p : Pointer} (hp : p ≠ []) :
    edit.apply doc (c ++ p) = .error e.onTheWay := by
  induction c generalizing doc e with
  | nil => simp [Json.resolve] at h
  | cons step rest ih =>
    have hne : rest ++ p ≠ [] := List.append_ne_nil_of_right_ne_nil rest hp
    cases hchild : doc.child? step with
    | none =>
      rw [Json.resolve, Json.follow_of_child?_eq_none hchild] at h
      obtain rfl : doc.deadEnd [step] step = e := by simpa using h
      exact apply_cons_of_child?_eq_none edit hchild hne
    | some child =>
      rw [Json.resolve, Json.child?_eq_some_iff.mp hchild] at h
      cases hrest : child.resolve rest with
      | ok node => simp [hrest] at h
      | error inner =>
        obtain rfl : inner.below step = e := by simpa [hrest] using h
        rw [List.cons_append, apply_cons edit hchild hne, ih hrest, around,
          Pointer.Error.onTheWay_below]

/-- An edit below a pointer succeeds exactly if the pointer leads to a value and the edit of
that value succeeds, and puts the edited value in its place. -/
theorem apply_append_eq_ok_iff {edit : Edit} {doc out : Json} {c p : Pointer} (hp : p ≠ []) :
    edit.apply doc (c ++ p) = .ok out ↔
      ∃ node changed, doc.select c = some node ∧ edit.apply node p = .ok changed ∧
        doc.replace c changed = .ok out := by
  cases hselect : doc.select c with
  | none =>
    cases hresolve : doc.resolve c with
    | ok node => simp [Json.resolve_eq_ok_iff.mp hresolve] at hselect
    | error e => simp [apply_of_resolve_error edit hresolve hp]
  | some node =>
    rw [apply_append edit hselect hp]
    cases houtcome : edit.apply node p <;> simp [houtcome]

/-! ## The last step -/

/-- What each edit gives at each part of each kind of value. -/
inductive LastStep : Edit → Json → Step → Except Pointer.Error Json → Prop where
  | addMember {members : List (String × Json)} {step : Step} {name : String} {value : Json}
      (hname : step.asKey? = some name) :
      LastStep (add value) (.object members) step
        (.ok (.object (Members.put members name value)))
  | replaceMember {members : List (String × Json)} {step : Step} {name : String} {value : Json}
      (hname : step.asKey? = some name) :
      LastStep (replace value) (.object members) step
        (.ok (.object (Members.put members name value)))
  | removeMember {members : List (String × Json)} {step : Step} {name : String}
      (hname : step.asKey? = some name) :
      LastStep remove (.object members) step (.ok (.object (Members.erase members name)))
  | insertItem {items : List Json} {i : Nat} {value : Json} (hi : i ≤ items.length) :
      LastStep (add value) (.array items) (.index i) (.ok (.array (items.insertIdx i value)))
  | appendItem {items : List Json} {value : Json} :
      LastStep (add value) (.array items) .pastEnd (.ok (.array (items ++ [value])))
  | replaceItem {items : List Json} {i : Nat} {value : Json} (hi : i < items.length) :
      LastStep (replace value) (.array items) (.index i) (.ok (.array (items.set i value)))
  | removeItem {items : List Json} {i : Nat} (hi : i < items.length) :
      LastStep remove (.array items) (.index i) (.ok (.array (items.eraseIdx i)))
  | addOutOfRange {items : List Json} {i : Nat} {value : Json} (hi : items.length < i) :
      LastStep (add value) (.array items) (.index i)
        (.error (.indexOutOfRange [.index i] i items.length))
  | replaceOutOfRange {items : List Json} {i : Nat} {value : Json} (hi : items.length ≤ i) :
      LastStep (replace value) (.array items) (.index i)
        (.error (.indexOutOfRange [.index i] i items.length))
  | removeOutOfRange {items : List Json} {i : Nat} (hi : items.length ≤ i) :
      LastStep remove (.array items) (.index i)
        (.error (.indexOutOfRange [.index i] i items.length))
  | pastEnd {edit : Edit} {node : Json}
      (hother : ∀ items value, node = .array items → edit ≠ add value) :
      LastStep edit node .pastEnd (.error (.pastEnd [.pastEnd]))
  | nameInArray {edit : Edit} {items : List Json} {name : String} :
      LastStep edit (.array items) (.key name) (.error (.typeMismatch [.key name] .array))
  | scalar {edit : Edit} {node : Json} {step : Step} (hnode : node.isScalar = true)
      (hstep : step ≠ .pastEnd) :
      LastStep edit node step (.error (.typeMismatch [step] node.kind))

/-- The rules hold of every edit with one step. -/
theorem lastStep_apply (edit : Edit) (node : Json) (step : Step) :
    LastStep edit node step (edit.apply node [step]) := by
  rw [apply]
  cases node with
  | object members =>
    cases step with
    | pastEnd => exact .pastEnd (by simp)
    | index i | key name =>
      cases edit with
      | add value => exact .addMember rfl
      | replace value => exact .replaceMember rfl
      | remove => exact .removeMember rfl
  | array items =>
    cases step with
    | key name => exact .nameInArray
    | pastEnd =>
      cases edit with
      | add value => exact .appendItem
      | replace value | remove => exact .pastEnd (by simp)
    | index i =>
      cases edit with
      | add value =>
        by_cases hi : i ≤ items.length
        · simpa [atStep, atItem?, Items.insert?, hi] using LastStep.insertItem hi
        · simpa [atStep, atItem?, Items.insert?, hi] using
            LastStep.addOutOfRange (Nat.lt_of_not_le hi)
      | replace value =>
        by_cases hi : i < items.length
        · simpa [atStep, atItem?, Items.replace?, hi] using LastStep.replaceItem hi
        · simpa [atStep, atItem?, Items.replace?, hi] using
            LastStep.replaceOutOfRange (Nat.le_of_not_lt hi)
      | remove =>
        by_cases hi : i < items.length
        · simpa [atStep, atItem?, Items.remove?, hi] using LastStep.removeItem hi
        · simpa [atStep, atItem?, Items.remove?, hi] using
            LastStep.removeOutOfRange (Nat.le_of_not_lt hi)
  | _ =>
    cases step with
    | pastEnd => exact .pastEnd (by simp)
    | index i | key name => exact .scalar rfl (by simp)

/-- The rules exclude each other. -/
theorem apply_of_lastStep {edit : Edit} {node : Json} {step : Step}
    {outcome : Except Pointer.Error Json} (h : LastStep edit node step outcome) :
    edit.apply node [step] = outcome := by
  rw [apply]
  cases h with
  | addMember hname | replaceMember hname | removeMember hname =>
    simp [atStep, hname, atMember]
  | insertItem hi => simp [atStep, atItem?, Items.insert?, hi]
  | replaceItem hi => simp [atStep, atItem?, Items.replace?, hi]
  | removeItem hi => simp [atStep, atItem?, Items.remove?, hi]
  | addOutOfRange hi =>
    simp [atStep, atItem?, Items.insert?, Nat.not_le_of_lt hi]
  | replaceOutOfRange hi =>
    simp [atStep, atItem?, Items.replace?, Nat.not_lt_of_le hi]
  | removeOutOfRange hi =>
    simp [atStep, atItem?, Items.remove?, Nat.not_lt_of_le hi]
  | appendItem | nameInArray => rfl
  | pastEnd hother =>
    cases node with
    | object members => rfl
    | array items =>
      cases edit with
      | add value => exact absurd rfl (hother items value rfl)
      | replace value | remove => rfl
    | _ => rfl
  | scalar hnode hstep =>
    cases step with
    | pastEnd => exact absurd rfl hstep
    | index i | key name =>
      cases node with
      | object members | array items => simp [Json.isScalar] at hnode
      | _ => rfl

theorem apply_singleton_iff {edit : Edit} {node : Json} {step : Step}
    {outcome : Except Pointer.Error Json} :
    edit.apply node [step] = outcome ↔ LastStep edit node step outcome :=
  ⟨fun h => h ▸ lastStep_apply edit node step, apply_of_lastStep⟩

/-- What an edit makes of one part of the value that a pointer leads to is put in the place of
that value. -/
theorem apply_concat_of_lastStep {edit : Edit} {doc node changed : Json} {c : Pointer} {step : Step}
    (hnode : doc.select c = some node) (h : LastStep edit node step (.ok changed)) :
    edit.apply doc (c ++ [step]) = doc.replace c changed := by
  rw [apply_append edit hnode (List.cons_ne_nil step []), apply_of_lastStep h]

/-- An error of the last step is reported from the start of the pointer. -/
theorem apply_concat_error_of_lastStep {edit : Edit} {doc node : Json} {c : Pointer} {step : Step}
    {e : Pointer.Error} (hnode : doc.select c = some node) (h : LastStep edit node step (.error e)) :
    edit.apply doc (c ++ [step]) = .error (e.under c) := by
  rw [apply_append edit hnode (List.cons_ne_nil step []), apply_of_lastStep h]

/-! ## Sites of errors -/

/-- Every error of an edit names a beginning of its pointer that is not empty. -/
theorem exists_site?_of_apply_error {edit : Edit} {doc : Json} {p : Pointer}
    {e : Pointer.Error} (h : edit.apply doc p = .error e) :
    ∃ step rest, e.site? = some (step :: rest) ∧ step :: rest <+: p := by
  induction p generalizing doc e with
  | nil => simp [apply] at h
  | cons step rest ih =>
    by_cases hrest : rest = []
    · subst hrest
      have hsite : e.site? = some [step] := by
        cases apply_singleton_iff.mp h <;> rfl
      exact ⟨step, [], hsite, List.prefix_refl _⟩
    · obtain rfl | ⟨child, inner, hinner, rfl⟩ := cases_of_apply_cons_error hrest h
      · refine ⟨step, [], ?_, by simp⟩
        rw [Pointer.Error.site?_onTheWay, Json.site?_deadEnd]
      · obtain ⟨first, others, hsite, hprefix⟩ := ih hinner
        refine ⟨step, first :: others, ?_, ?_⟩
        · rw [Pointer.Error.site?_below, hsite, Option.map_some]
        · exact (List.prefix_cons_inj step).mpr hprefix

/-- An edit at a pointer, seen from any split of the pointer into a way `c` and one step or
more behind it.  Where the way leads nowhere, the edit fails as the lookup does.  Where it
leads to a value, the edit succeeds exactly if the same edit of that value does, and puts
the edited value back in its place; otherwise it fails with the same error further down.
What one step does is listed by `LastStep`. -/
theorem apply_factors_through_split (edit : Edit) (doc : Json) (c : Pointer) (step : Step)
    (rest : Pointer) :
    (∀ e, doc.resolve c = .error e →
        edit.apply doc (c ++ step :: rest) = .error e.onTheWay) ∧
      (∀ node, doc.resolve c = .ok node →
        (∀ out, edit.apply doc (c ++ step :: rest) = .ok out ↔
          ∃ changed, edit.apply node (step :: rest) = .ok changed ∧
            doc.replace c changed = .ok out) ∧
        (∀ changed, edit.apply node (step :: rest) = .ok changed →
          ∃ out, doc.replace c changed = .ok out) ∧
        (∀ e, edit.apply node (step :: rest) = .error e →
          edit.apply doc (c ++ step :: rest) = .error (e.under c) ∧
            ∃ site, e.site? = some site ∧
              (e.under c).site?.map Pointer.render =
                some (Pointer.render c ++ Pointer.render site))) ∧
      (∀ node last outcome,
        edit.apply node [last] = outcome ↔ LastStep edit node last outcome) := by
  refine ⟨?_, ?_, fun node last outcome => apply_singleton_iff⟩
  · intro e he
    exact apply_of_resolve_error edit he (List.cons_ne_nil step rest)
  · intro node hnode
    rw [Json.resolve_eq_ok_iff] at hnode
    have hcut := apply_append edit hnode (List.cons_ne_nil step rest)
    refine ⟨?_, fun changed _ => exists_replace_eq_ok hnode changed, ?_⟩
    · intro out
      rw [hcut]
      cases edit.apply node (step :: rest) <;> simp
    · intro e he
      obtain ⟨first, others, hsite, -⟩ := exists_site?_of_apply_error he
      refine ⟨by rw [hcut, he], first :: others, hsite, ?_⟩
      rw [Pointer.Error.render_site?_under, hsite, Option.map_some]

/-- One document is edited at three pointers.  The way to the first place leads nowhere, at the
second one an item is appended, and the third one would be inside a number. -/
theorem apply_factors_through_split_of_one_array :
    (Json.object [("a", .array [.ofInt 4])]).resolve [.key "a", .index 3] =
        .error (.notFound [.key "a", .index 3]) ∧
      remove.apply (.object [("a", .array [.ofInt 4])]) ([.key "a", .index 3] ++ [.key "x"]) =
        .error (.missingIntermediate [.key "a", .index 3]) ∧
      (Json.object [("a", .array [.ofInt 4])]).resolve [.key "a"] = .ok (.array [.ofInt 4]) ∧
      LastStep (add .null) (.array [.ofInt 4]) .pastEnd (.ok (.array [.ofInt 4, .null])) ∧
      (add .null).apply (.object [("a", .array [.ofInt 4])]) ([.key "a"] ++ [.pastEnd]) =
        .ok (.object [("a", .array [.ofInt 4, .null])]) ∧
      remove.apply (.object [("a", .array [.ofInt 4])]) ([.key "a"] ++ [.index 0, .key "x"]) =
        .error (.typeMismatch [.key "a", .index 0, .key "x"] .number) := by
  have hlost : (Json.object [("a", .array [.ofInt 4])]).resolve [.key "a", .index 3] =
      .error (.notFound [.key "a", .index 3]) := rfl
  have hfound : (Json.object [("a", .array [.ofInt 4])]).resolve [.key "a"] =
      .ok (.array [.ofInt 4]) := rfl
  have hway := (apply_factors_through_split remove (.object [("a", .array [.ofInt 4])])
    [.key "a", .index 3] (.key "x") []).1 _ hlost
  obtain ⟨-, happend, hlast⟩ := apply_factors_through_split (add .null)
    (.object [("a", .array [.ofInt 4])]) [.key "a"] .pastEnd []
  obtain ⟨-, -, herror⟩ := (apply_factors_through_split remove
    (.object [("a", .array [.ofInt 4])]) [.key "a"] (.index 0) [.key "x"]).2.1 _ hfound
  refine ⟨hlost, hway, hfound, (hlast _ _ _).mp rfl, ?_, (herror _ rfl).1⟩
  exact ((happend _ hfound).1 _).mpr ⟨.array [.ofInt 4, .null], rfl, rfl⟩

end Edit

end JsonEdit
