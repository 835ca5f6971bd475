import JsonEdit.Proofs.Pointer.Canonical
import JsonEdit.Proofs.Pointer.Frame

/-!
# Addresses as text

A pointer that was sent as text can come back with other steps: the name `0` comes back as
the index 0.  It still leads to the same place.  In an object an index stands for the name
that its digits spell, and in an array no name leads anywhere, so nothing that a pointer
reached is lost.  Only the name `-` is, because a hyphen in text is never a name.

There are four groups.

* One step.  `Step.Sendable` is what a step must be for text to carry its address.  Such a
  step keeps its name (`asKey?_reread`) and leads to the same part (`child?_reread`).
* Lookups, by induction on the pointer: `select_map_reread`.
* Edits, by the same induction: `apply_map_reread`.
* Addresses.  `Json.Addressed` writes the address of a value along the way down to it, with
  no pointer in between, and `compile_render_keeps_address` is the assembly.
-/

namespace JsonEdit

open Pointer

namespace Step

/-! ## One step -/

/-- A step other than the name `-` comes back with its name. -/
theorem asKey?_reread {step : Step} (hname : step ≠ .key "-") :
    step.reread.asKey? = step.asKey? := by
  cases step with
  | pastEnd => rfl
  | index n =>
    change (classify (Text.decimal n)).asKey? = _
    rw [asKey?_classify (decimal_ne_hyphen n), unescape_of_plain (plain_decimal n), asKey?]
  | key name =>
    have hhyphen : escape name.toList ≠ ['-'] := by
      intro h
      have hself := (reserved_of_reserved_escape (.inl h)).1
      exact hname (congrArg key (String.toList_inj.mp (hself.symm.trans h)))
    change (classify (escape name.toList)).asKey? = _
    rw [asKey?_classify hhyphen, unescape_escape, String.ofList_toList, asKey?]

theorem reread_index {n : Nat} (hn : n ≤ greatestIndex) : (index n).reread = index n :=
  classify_decimal hn

/-- A step whose address text can carry: an index is below `2 ^ 64`, and a name is not `-`. -/
structure Sendable (step : Step) : Prop where
  inRange : step.InRange
  ne_hyphen : step ≠ .key "-"

end Step

namespace Json

/-- A step that leads to a part leads to it when it comes back. -/
theorem child?_reread {node child : Json} {step : Step} (hstep : step.Sendable)
    (h : node.child? step = some child) : node.child? step.reread = some child := by
  cases node with
  | object members => rw [child?_object_congr (Step.asKey?_reread hstep.ne_hyphen) members, h]
  | array items =>
    cases step with
    | index i => rw [Step.reread_index hstep.inRange, h]
    | key name | pastEnd => simp [child?] at h
  | _ => simp [child?] at h

end Json

namespace Edit

open Json

/-- A part is put in its place by a step that leads to it when that step comes back. -/
theorem withPart_reread {node child : Json} {step : Step} (hstep : step.Sendable)
    (h : node.child? step = some child) (value : Json) :
    withPart value node step.reread = withPart value node step := by
  cases node with
  | object members => simp only [withPart, Step.asKey?_reread hstep.ne_hyphen]
  | array items =>
    cases step with
    | index i => rw [Step.reread_index hstep.inRange]
    | key name | pastEnd => simp [child?] at h
  | _ => rfl

/-- An edit that succeeds with one step succeeds alike when the step comes back. -/
theorem apply_reread {edit : Edit} {node out : Json} {step : Step} (hstep : step.Sendable)
    (h : edit.apply node [step] = .ok out) : edit.apply node [step.reread] = .ok out := by
  have hkey : ∀ {name}, step.asKey? = some name → step.reread.asKey? = some name :=
    fun h => (Step.asKey?_reread hstep.ne_hyphen).trans h
  rw [apply_singleton_iff] at h ⊢
  cases h with
  | addMember h => exact .addMember (hkey h)
  | replaceMember h => exact .replaceMember (hkey h)
  | removeMember h => exact .removeMember (hkey h)
  | insertItem hi =>
    rw [Step.reread_index hstep.inRange]
    exact .insertItem hi
  | appendItem => exact .appendItem
  | replaceItem hi =>
    rw [Step.reread_index hstep.inRange]
    exact .replaceItem hi
  | removeItem hi =>
    rw [Step.reread_index hstep.inRange]
    exact .removeItem hi

end Edit

section

variable {p : Pointer}

theorem Pointer.forall_sendable (hrange : ∀ step ∈ p, step.InRange) (hname : Step.key "-" ∉ p) :
    ∀ step ∈ p, step.Sendable := by
  intro step hstep
  exact ⟨hrange step hstep, fun hhyphen => hname (hhyphen ▸ hstep)⟩

/-! ## Lookups -/

theorem Json.select_map_reread {doc node : Json} (hp : ∀ step ∈ p, step.Sendable)
    (h : doc.select p = some node) : doc.select (p.map Step.reread) = some node := by
  induction p generalizing doc with
  | nil => exact h
  | cons step rest ih =>
    rw [List.forall_mem_cons] at hp
    rw [select, Option.bind_eq_some_iff] at h
    obtain ⟨child, hchild, hrest⟩ := h
    rw [List.map_cons, select_cons (child?_reread hp.1 hchild)]
    exact ih hp.2 hrest

/-! ## Edits -/

theorem Edit.apply_map_reread {edit : Edit} {doc out : Json} (hp : ∀ step ∈ p, step.Sendable)
    (h : edit.apply doc p = .ok out) : edit.apply doc (p.map Step.reread) = .ok out := by
  induction p generalizing doc out with
  | nil => exact h
  | cons step rest ih =>
    rw [List.forall_mem_cons] at hp
    rw [List.map_cons]
    by_cases hrest : rest = []
    · subst hrest
      exact apply_reread hp.1 h
    · have hmap : rest.map Step.reread ≠ [] := by simpa using hrest
      rw [apply_cons_eq_ok_iff hrest] at h
      rw [apply_cons_eq_ok_iff hmap]
      obtain ⟨child, changed, hchild, hchanged, hout⟩ := h
      refine ⟨child, changed, Json.child?_reread hp.1 hchild, ih hp.2 hchanged, ?_⟩
      rw [withPart_reread hp.1 hchild changed, hout]

end

/-! ## Addresses -/

namespace Json

/-- A value inside a document, with its address: a slash and the escaped name for each member
on the way down to it, a slash and the decimal position, below `2 ^ 64`, for each item. -/
inductive Addressed : Json → List Char → Json → Prop where
  | here {doc : Json} : Addressed doc [] doc
  | member {members : List (String × Json)} {name : String} {child node : Json}
      {address : List Char} (hname : name ≠ "-")
      (hmember : Members.get? members name = some child) (hrest : Addressed child address node) :
      Addressed (.object members) ('/' :: escape name.toList ++ address) node
  | item {items : List Json} {i : Nat} {child node : Json} {address : List Char}
      (hi : i ≤ Step.greatestIndex) (hitem : items[i]? = some child) (hrest : Addressed child address node) :
      Addressed (.array items) ('/' :: Text.decimal i ++ address) node

/-- An address is the text of a pointer that leads to its value. -/
theorem exists_pointer_of_addressed {doc node : Json} {address : List Char}
    (h : doc.Addressed address node) :
    ∃ p : Pointer, p.text = address ∧ (∀ step ∈ p, step.Sendable) ∧ doc.select p = some node := by
  induction h with
  | here => exact ⟨[], rfl, List.forall_mem_nil _, rfl⟩
  | @member members name child node address hname hmember hrest ih =>
    obtain ⟨p, rfl, hp, hselect⟩ := ih
    have hstep : (Step.key name).Sendable := ⟨trivial, by simpa using hname⟩
    have hchild : (object members).child? (.key name) = some child := hmember
    refine ⟨.key name :: p, rfl, List.forall_mem_cons.mpr ⟨hstep, hp⟩, ?_⟩
    rw [select_cons hchild, hselect]
  | @item items i child node address hi hitem hrest ih =>
    obtain ⟨p, rfl, hp, hselect⟩ := ih
    have hstep : (Step.index i).Sendable := ⟨hi, by simp⟩
    have hchild : (array items).child? (.index i) = some child := hitem
    refine ⟨.index i :: p, rfl, List.forall_mem_cons.mpr ⟨hstep, hp⟩, ?_⟩
    rw [select_cons hchild, hselect]

end Json

namespace Pointer

/-- A pointer with indices below `2 ^ 64` and without the name `-` may come back from its text
with other steps.  It leads to the value that it led to, and an edit there that succeeded leaves
the same document, order included.  So the text made of the names and positions on the way
to a value leads to the value. -/
theorem compile_render_keeps_address :
    (∀ (doc : Json) (p : Pointer), (∀ step ∈ p, step.InRange) → Step.key "-" ∉ p →
        (∀ node, doc.select p = some node → doc.select (compile p.render) = some node) ∧
        ∀ (edit : Edit) (out : Json), edit.apply doc p = .ok out →
          edit.apply doc (compile p.render) = .ok out) ∧
      ∀ (doc node : Json) (address : String), doc.Addressed address.toList node →
        doc.select (compile address) = some node := by
  constructor
  · intro doc p hrange hname
    have hp := forall_sendable hrange hname
    rw [compile_render]
    exact ⟨fun node => Json.select_map_reread hp, fun edit out => Edit.apply_map_reread hp⟩
  · intro doc node address h
    obtain ⟨p, htext, hp, hselect⟩ := Json.exists_pointer_of_addressed h
    have hrender : p.render = address := by rw [render, htext, String.ofList_toList]
    rw [← hrender, compile_render]
    exact Json.select_map_reread hp hselect

/-- The name `0` comes back as an index, and still leads to the member. -/
theorem compile_render_keeps_address_numeral_name :
    compile (render [.key "0", .index 1, .key "a/b"]) = [.index 0, .index 1, .key "a/b"] ∧
      Json.select (.object [("0", .array [.null, .object [("a/b", .ofInt 7)]])])
        (compile (render [.key "0", .index 1, .key "a/b"])) = some (.ofInt 7) ∧
      Edit.remove.apply (.object [("0", .array [.null, .object [("a/b", .ofInt 7)]])])
        (compile (render [.key "0", .index 1, .key "a/b"])) =
          .ok (.object [("0", .array [.null, .object []])]) ∧
      Json.select (.object [("0", .array [.null, .object [("a/b", .ofInt 7)]])])
        (compile "/0/1/a~1b") = some (.ofInt 7) := by
  have hpointer := compile_render_keeps_address.1
    (.object [("0", .array [.null, .object [("a/b", .ofInt 7)]])])
    [.key "0", .index 1, .key "a/b"] (by decide) (by decide)
  have hmember : Json.Addressed (.object [("a/b", .ofInt 7)]) "/a~1b".toList (.ofInt 7) :=
    .member (show "a/b" ≠ "-" by decide) rfl .here
  have hitem : Json.Addressed (.array [.null, .object [("a/b", .ofInt 7)]])
      "/1/a~1b".toList (.ofInt 7) :=
    .item (show 1 ≤ Step.greatestIndex by decide) rfl hmember
  have haddress : Json.Addressed (.object [("0", .array [.null, .object [("a/b", .ofInt 7)]])])
      "/0/1/a~1b".toList (.ofInt 7) :=
    .member (show "0" ≠ "-" by decide) rfl hitem
  exact ⟨rfl, hpointer.1 _ rfl, hpointer.2 .remove _ rfl,
    compile_render_keeps_address.2 _ _ _ haddress⟩

end Pointer

end JsonEdit
