import JsonEdit.Proofs.Pointer.Congruence

/-!
# Distinct names last

In a document no object holds a name twice.  Lookups and edits keep it so: what a pointer leads
to is a document, and an edit leaves one if the value that it brings is one.  A document is a
value that is `Json.Alike` to itself, so all of this is what the lemmas on equal documents say of
one document and itself.

* Lookups.  `Document.part` is what a pointer leads to in a document.
* Edits.  `Document.edited` is what an edit leaves of a document.
-/

namespace JsonEdit

namespace Json

/-! ## Lookups -/

theorem DistinctNames.child? {node child : Json} {step : Step} (hnode : node.DistinctNames)
    (h : node.child? step = some child) : child.DistinctNames :=
  distinctNames_of_rel (rel_child? (alike_self hnode) step) h

theorem DistinctNames.select {doc node : Json} {p : Pointer} (hdoc : doc.DistinctNames)
    (h : doc.select p = some node) : node.DistinctNames :=
  distinctNames_of_rel (rel_select (alike_self hdoc) p) h

namespace Document

/-- The document that a pointer leads to in a document. -/
def part (doc : Document) {p : Pointer} {node : Json} (h : doc.1.select p = some node) : Document :=
  ⟨node, doc.2.select h⟩

/-- The members of an object in a document have distinct names. -/
theorem nodup_keys (doc : Document) {p : Pointer} {members : List (String × Json)}
    (h : doc.1.select p = some (object members)) : (Members.keys members).Nodup :=
  (distinctNames_object_iff.mp (doc.part h).2).1

end Document

end Json

namespace Edit

open Json

/-! ## Edits -/

/-- The value that an edit brings has distinct names. -/
def DistinctNames (edit : Edit) : Prop := ∀ value, edit.value? = some value → value.DistinctNames

theorem alike_self {edit : Edit} (h : edit.DistinctNames) : edit.Alike edit := by
  cases edit with
  | add value => exact .add (Json.alike_self (h value rfl))
  | replace value => exact .replace (Json.alike_self (h value rfl))
  | remove => exact .remove

end Edit

/-- The document that an edit with such a value leaves of a document. -/
def Json.Document.edited (doc : Document) {edit : Edit} (hedit : edit.DistinctNames) {p : Pointer}
    {out : Json} (h : edit.apply doc.1 p = .ok out) : Document where
  val := out
  property := by
    have hagree := Edit.agree_apply (Edit.alike_self hedit) (alike_self doc.2) p
    rw [h] at hagree
    exact hagree.of_ok.left

end JsonEdit
