import JsonEdit.Proofs.Json.Read
import JsonEdit.Proofs.Patch.Decode
import JsonEdit.Proofs.Patch.Fold
import JsonEdit.Proofs.Pointer.Conservation
import JsonEdit.Proofs.Pointer.Distinct

/-!
# Where scalars come from

A run makes no scalar of its own but null, which is what stays when a whole document is removed.
Every other scalar of the document that it leaves was in the document before, or in the value of
an operation, and the value of an operation is a part of the item that it was read from.

There are three groups.

* Edits.  A balance of scalars says what can come out of an edit (`mem_scalars_of_apply`), and
  what a pointer leads to has no scalars that the document does not have.
* Operations and runs.  `mem_scalars_of_effect` is the step, and `sourced_of_applyAll` says it of a
  whole run.
* Kept properties.  What holds of all scalars is kept by a run (`forall_scalars_of_applyAll`), and
  so are distinct names.  Together they make `clean_of_applyAll`: what a run leaves is such as
  reading gives.
-/

namespace JsonEdit

namespace Json

/-! ## Edits -/

theorem mem_scalars_of_child? {node child y : Json} {step : Step}
    (hchild : node.child? step = some child) (hy : y ∈ child.scalars) : y ∈ node.scalars := by
  cases node with
  | object members =>
    obtain ⟨name, -, hget⟩ := exists_name_of_child? hchild
    exact mem_scalarsMembers_iff.mpr ⟨name, child, Members.mem_of_get?_eq_some hget, hy⟩
  | array items =>
    cases step with
    | index i => exact mem_scalarsItems_iff.mpr ⟨child, List.mem_of_getElem? hchild, hy⟩
    | key name | pastEnd => simp [child?] at hchild
  | _ => simp [child?] at hchild

theorem mem_scalars_of_select {doc node y : Json} {p : Pointer} (hnode : doc.select p = some node)
    (hy : y ∈ node.scalars) : y ∈ doc.scalars := by
  induction p generalizing doc with
  | nil =>
    cases hnode
    exact hy
  | cons step rest ih =>
    rw [select, Option.bind_eq_some_iff] at hnode
    obtain ⟨child, hchild, hrest⟩ := hnode
    exact mem_scalars_of_child? hchild (ih hrest)

/-- A copy that succeeds has added what it found, or has found nothing. -/
theorem copy_eq_ok {doc out : Json} {source target : Pointer}
    (h : doc.copy source target = .ok out) :
    out = doc ∨ ∃ value, doc.select source = some value ∧ doc.add target value = .ok out := by
  cases hvalue : doc.select source with
  | none => exact .inl (by simpa [copy, hvalue, eq_comm] using h)
  | some value => exact .inr ⟨value, rfl, by simpa [copy, hvalue] using h⟩

/-- A move that succeeds has removed what it found and added it to what was left, or there
was nothing to do. -/
theorem move_eq_ok {doc out : Json} {source target : Pointer}
    (h : doc.move source target = .ok out) :
    out = doc ∨ ∃ value reduced, doc.select source = some value ∧
      doc.remove source = .ok reduced ∧ reduced.add target value = .ok out := by
  by_cases hidle : source = target
  · exact .inl (eq_of_move (.inr hidle) h)
  · cases hvalue : doc.select source with
    | none => exact .inl (eq_of_move (.inl hvalue) h)
    | some value =>
      obtain ⟨-, reduced, hreduced, hadd⟩ := exists_reduced_of_move hvalue hidle h
      exact .inr ⟨value, reduced, rfl, hreduced, hadd⟩

end Json

open Json

/-- A scalar after an edit was there before, or came with the edit, or is the null that is left
of a document that was removed. -/
theorem Edit.mem_scalars_of_apply {edit : Edit} {doc out y : Json} {p : Pointer}
    (h : edit.apply doc p = .ok out) (hy : y ∈ out.scalars) :
    y ∈ doc.scalars ∨ y ∈ scalars? edit.value? ∨ y = null := by
  by_cases hroot : p = [] ∧ edit = remove
  · rw [hroot.1, hroot.2] at h
    cases h
    exact .inr (.inr (Multiset.mem_singleton.mp hy))
  · have hbalance := scalars_of_apply (fun hnil hremove => hroot ⟨hnil, hremove⟩) h
    have hin : y ∈ doc.scalars + scalars? edit.value? := by
      rw [← hbalance]
      exact Multiset.mem_add.mpr (.inl hy)
    rcases Multiset.mem_add.mp hin with hdoc | hvalue
    · exact .inl hdoc
    · exact .inr (.inl hvalue)

/-! ## Operations and runs -/

/-- A scalar after an operation was there before, or came with the operation, or is null. -/
theorem Op.mem_scalars_of_effect {op : Op} {doc out y : Json} (h : op.effect doc = .ok out)
    (hy : y ∈ out.scalars) : y ∈ doc.scalars ∨ y ∈ scalars? op.value? ∨ y = null := by
  cases op with
  | add path value | replace path value | remove path =>
    exact Edit.mem_scalars_of_apply (mapError_eq_ok_iff.mp h) hy
  | copy path source =>
    rcases copy_eq_ok (mapError_eq_ok_iff.mp h) with hsame | ⟨value, hvalue, hadd⟩
    · rw [hsame] at hy
      exact .inl hy
    · rcases Edit.mem_scalars_of_apply hadd hy with hdoc | hcopied | hnull
      · exact .inl hdoc
      · exact .inl (mem_scalars_of_select hvalue hcopied)
      · exact .inr (.inr hnull)
  | move path source =>
    rcases move_eq_ok (mapError_eq_ok_iff.mp h) with hsame | ⟨value, reduced, hvalue, hreduced, hadd⟩
    · rw [hsame] at hy
      exact .inl hy
    · rcases Edit.mem_scalars_of_apply hadd hy with hleft | hmoved | hnull
      · rcases Edit.mem_scalars_of_apply hreduced hleft with hdoc | hnone | hnull
        · exact .inl hdoc
        · exact absurd hnone (Multiset.notMem_zero y)
        · exact .inr (.inr hnull)
      · exact .inl (mem_scalars_of_select hvalue hmoved)
      · exact .inr (.inr hnull)
  | test path value =>
    rw [effect] at h
    split at h
    · cases h
      exact .inl hy
    · cases h

namespace Patch

/-- Every scalar of a value is one of a document, or came with an operation, or is null. -/
def Sourced (doc : Json) (ops : List Op) (x : Json) : Prop :=
  ∀ y ∈ x.scalars, y ∈ doc.scalars ∨ (∃ op ∈ ops, y ∈ scalars? op.value?) ∨ y = null

/-- No operation of a run makes a scalar, so the run makes none. -/
theorem sourced_of_applyAll {doc out : Json} {ops : List Op} (h : applyAll doc ops = .ok out) :
    Sourced doc ops out := by
  have hdoc : Sourced doc ops doc := fun _ hy => .inl hy
  refine invariant_of_applyAll hdoc ?_ h
  intro op hop before after hbefore heffect y hy
  rcases Op.mem_scalars_of_effect heffect hy with hold | hvalue | hnull
  · exact hbefore y hold
  · exact .inr (.inl ⟨op, hop, hvalue⟩)
  · exact .inr (.inr hnull)

/-! ## Kept properties -/

/-- What holds of null, and of the scalars of a document and of the operations, holds of the
scalars that a run leaves. -/
theorem forall_scalars_of_applyAll {holds : Json → Prop} (hnull : holds null) {doc out : Json}
    {ops : List Op} (hdoc : ∀ y ∈ doc.scalars, holds y)
    (hops : ∀ op ∈ ops, ∀ value, op.value? = some value → ∀ y ∈ value.scalars, holds y)
    (h : applyAll doc ops = .ok out) : ∀ y ∈ out.scalars, holds y := by
  intro y hy
  rcases sourced_of_applyAll h y hy with hold | ⟨op, hop, hvalue⟩ | hleft
  · exact hdoc y hold
  · cases hsome : op.value? with
    | none =>
      rw [hsome] at hvalue
      exact absurd hvalue (Multiset.notMem_zero y)
    | some value =>
      rw [hsome] at hvalue
      exact hops op hop value hsome y hvalue
  · rw [hleft]
    exact hnull

/-- The value of an operation is a part of the item that the operation was read from. -/
theorem exists_item_of_ofItems {items : List Json} {ops : List Op} (h : ofItems items = .ok ops)
    {op : Op} (hop : op ∈ ops) {value : Json} (hvalue : op.value? = some value) :
    ∃ item ∈ items, item.child? (.key "value") = some value := by
  have hread := ofItems_eq_ok_iff.mp h
  clear h
  induction hread with
  | nil => cases hop
  | cons hitem hothers ih =>
    rename_i item other items ops
    rcases List.mem_cons.mp hop with hfirst | hlater
    · subst hfirst
      have hmember := (Op.ofJson_eq_ok_iff.mp hitem).value value hvalue
      refine ⟨item, List.mem_cons_self, ?_⟩
      cases item with
      | object members => exact hmember
      | _ => cases hmember
    · obtain ⟨source, hsource, hpart⟩ := ih hlater
      exact ⟨source, List.mem_cons_of_mem _ hsource, hpart⟩

theorem distinctNames_of_ofItems {items : List Json} {ops : List Op}
    (hitems : (array items).DistinctNames) (h : ofItems items = .ok ops) :
    ∀ op ∈ ops, op.DistinctNames := by
  intro op hop value hvalue
  obtain ⟨item, hitem, hpart⟩ := exists_item_of_ofItems h hop hvalue
  exact (distinctNames_array_iff.mp hitems item hitem).child? hpart

/-- What holds of the scalars of a patch holds of those of its operations. -/
theorem forall_scalars_of_ofItems {holds : Json → Prop} {items : List Json} {ops : List Op}
    (hitems : ∀ y ∈ (array items).scalars, holds y) (h : ofItems items = .ok ops) :
    ∀ op ∈ ops, ∀ value, op.value? = some value → ∀ y ∈ value.scalars, holds y := by
  intro op hop value hvalue y hy
  obtain ⟨item, hitem, hpart⟩ := exists_item_of_ofItems h hop hvalue
  exact hitems y (mem_scalarsItems_iff.mpr ⟨item, hitem, mem_scalars_of_child? hpart hy⟩)

/-- A run on a document that was read, through operations that were read, leaves a document
such as reading gives, except that it may be nested deeper. -/
theorem clean_of_applyAll {doc out : Json} {items : List Json} {ops : List Op}
    (hdoc : doc.Clean) (hitems : (array items).Clean) (hops : ofItems items = .ok ops)
    (h : applyAll doc ops = .ok out) : out.Clean := by
  have hread {x : Json} (hx : x.Clean) :
      ∀ y ∈ x.scalars, ∀ i, y = number (.int i) → (Number.int i).IsInteger64 := by
    intro y hy
    exact (Everywhere.of_mem_scalars hx hy).2
  apply clean_of_scalars
  · exact distinctNames_of_applyAll hdoc.distinctNames
      (distinctNames_of_ofItems hitems.distinctNames hops) h
  · refine forall_scalars_of_applyAll ?_ (hread hdoc)
      (forall_scalars_of_ofItems (hread hitems) hops) h
    intro i hi
    cases hi

theorem integers_of_applyAll {doc out : Json} {items : List Json} {ops : List Op}
    (hdoc : doc.Integers) (hitems : (array items).Integers) (hops : ofItems items = .ok ops)
    (h : applyAll doc ops = .ok out) : out.Integers := by
  have hread {x : Json} (hx : x.Integers) :
      ∀ y ∈ x.scalars, ∀ n, y = number n → ∃ i, n = .int i := by
    intro y hy n hn
    exact hx n (hn ▸ hy)
  intro n hn
  refine forall_scalars_of_applyAll ?_ (hread hdoc)
    (forall_scalars_of_ofItems (hread hitems) hops) h _ hn n rfl
  intro m hm
  cases hm

end Patch

end JsonEdit
