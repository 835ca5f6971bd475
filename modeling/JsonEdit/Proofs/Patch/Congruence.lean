import JsonEdit.Patch.Run
import JsonEdit.Proofs.Pointer.Congruence

/-!
# Runs respect equality

The order of members can be seen in the document that a patch leaves, but it never decides
what the patch does.  Two documents that are equal up to the order of members, run through
operations that are equal in the same sense, end in equal documents with equal histories, or
in one error.

There are three groups.

* Equal operations, outcomes and results.  Each is stated twice: `Same` compares values up to the
  order of members, and `Alike` asks in addition that the values are documents.
* One operation.  `agree_effect` and `agree_apply` follow from the edits and lookups.
* Runs.  `agree_run` is the induction on the operations, and `run_ignores_member_order` is
  the assembly with the equivalence.  The induction goes through because what an operation
  leaves of two equal documents are two equal documents again.
-/

namespace JsonEdit

namespace Op

/-! ## Equal operations, outcomes and results -/

/-- The value of an operation, for an operation that has one. -/
def value? : Op → Option Json
  | add _ value | replace _ value | test _ value => some value
  | _ => none

/-- The value of an operation has distinct names. -/
def DistinctNames (op : Op) : Prop := ∀ value, op.value? = some value → value.DistinctNames

instance (op : Op) : Decidable op.DistinctNames :=
  inferInstanceAs (Decidable (∀ value ∈ op.value?, value.DistinctNames))

/-- Two operations are equal: they do the same at the same paths, with equal values. -/
inductive Same : Op → Op → Prop where
  | add (path : Pointer) {v w : Json} (h : v.Same w) : Same (add path v) (add path w)
  | remove (path : Pointer) : Same (remove path) (remove path)
  | replace (path : Pointer) {v w : Json} (h : v.Same w) : Same (replace path v) (replace path w)
  | copy (path source : Pointer) : Same (copy path source) (copy path source)
  | move (path source : Pointer) : Same (move path source) (move path source)
  | test (path : Pointer) {v w : Json} (h : v.Same w) : Same (test path v) (test path w)

theorem same_self {op : Op} (h : op.DistinctNames) : op.Same op := by
  cases op with
  | add path value => exact .add path (Json.same_self (h value rfl))
  | remove path => exact .remove path
  | replace path value => exact .replace path (Json.same_self (h value rfl))
  | copy path source => exact .copy path source
  | move path source => exact .move path source
  | test path value => exact .test path (Json.same_self (h value rfl))

/-- Two operations are equal, and their values are documents. -/
structure Alike (op₁ op₂ : Op) : Prop where
  left : op₁.DistinctNames
  right : op₂.DistinctNames
  same : op₁.Same op₂

theorem alike_self {op : Op} (h : op.DistinctNames) : op.Alike op := ⟨h, h, same_self h⟩

/-- Equal operations in two lists with documents for values. -/
theorem forall₂_alike {ops₁ ops₂ : List Op} (h : List.Forall₂ Same ops₁ ops₂)
    (h₁ : ∀ op ∈ ops₁, op.DistinctNames) (h₂ : ∀ op ∈ ops₂, op.DistinctNames) :
    List.Forall₂ Alike ops₁ ops₂ := by
  induction h with
  | nil => exact .nil
  | cons hop hrest ih =>
    rw [List.forall_mem_cons] at h₁ h₂
    exact .cons ⟨h₁.1, h₂.1, hop⟩ (ih h₁.2 h₂.2)

theorem path_eq_of_same {op₁ op₂ : Op} (h : op₁.Same op₂) : op₁.path = op₂.path := by
  cases h <;> rfl

end Op

/-- Two outcomes are equal, the order of members left aside. -/
structure Outcome.Same (a b : Outcome) : Prop where
  doc : a.doc.Same b.doc
  old : Option.Rel Json.Same a.old b.old

/-- Two outcomes are equal, and their values are documents. -/
structure Outcome.Alike (a b : Outcome) : Prop where
  doc : a.doc.Alike b.doc
  old : Option.Rel Json.Alike a.old b.old

theorem Outcome.Alike.same {a b : Outcome} (h : a.Alike b) : a.Same b :=
  ⟨h.doc.same, Json.rel_imp h.old fun _ _ _ _ hxy => hxy.same⟩

/-- Two results are equal, the order of members left aside, with histories of one length. -/
structure Patch.Result.Same (a b : Result) : Prop where
  doc : a.doc.Same b.doc
  history : List.Forall₂ Outcome.Same a.history b.history

/-- Two results are equal, and their values are documents. -/
structure Patch.Result.Alike (a b : Result) : Prop where
  doc : a.doc.Alike b.doc
  history : List.Forall₂ Outcome.Alike a.history b.history

theorem Patch.Result.Alike.same {a b : Result} (h : a.Alike b) : a.Same b :=
  ⟨h.doc.same, h.history.imp fun _ _ hab => hab.same⟩

/-! ## One operation -/

namespace Op

section

variable {op₁ op₂ : Op} {d₁ d₂ : Json}

/-- Equal operations on equal documents leave equal documents or fail alike. -/
theorem agree_effect (hop : op₁.Alike op₂) (h : d₁.Alike d₂) :
    Agree Json.Alike (op₁.effect d₁) (op₂.effect d₂) := by
  obtain ⟨hleft, hright, hsame⟩ := hop
  have hvalues {v w : Json} (hv : op₁.value? = some v) (hw : op₂.value? = some w)
      (hvw : v.Same w) : v.Alike w := ⟨hleft v hv, hright w hw, hvw⟩
  cases hsame with
  | add path hvw => exact (Edit.agree_apply (.add (hvalues rfl rfl hvw)) h path).mapError _
  | remove path => exact (Edit.agree_apply .remove h path).mapError _
  | replace path hvw => exact (Edit.agree_apply (.replace (hvalues rfl rfl hvw)) h path).mapError _
  | copy path source => exact (Json.agree_copy h source path).mapError _
  | move path source => exact (Json.agree_move h source path).mapError _
  | test path hvw =>
    rw [effect, effect, Json.test_congr h (hvalues rfl rfl hvw) path]
    split
    · exact .ok h
    · exact .error _

theorem effect_of_apply {op : Op} {doc : Json} {outcome : Outcome}
    (h : op.apply doc = .ok outcome) : op.effect doc = .ok outcome.doc := by
  rw [apply] at h
  cases heffect : op.effect doc with
  | error e => simp [heffect, Except.map] at h
  | ok out =>
    rw [heffect] at h
    obtain rfl : Outcome.mk out (doc.select op.path) = outcome := by simpa [Except.map] using h
    rfl

/-- Equal operations on equal documents have equal outcomes or fail alike. -/
theorem agree_apply (hop : op₁.Alike op₂) (h : d₁.Alike d₂) :
    Agree Outcome.Alike (op₁.apply d₁) (op₂.apply d₂) := by
  refine (agree_effect hop h).map fun a b _ _ hab => ⟨hab, ?_⟩
  rw [path_eq_of_same hop.same]
  exact Json.rel_select h op₂.path

end

end Op

namespace Patch

/-! ## Runs -/

/-- Equal operations, one after the other on equal documents, leave equal results or fail
alike. -/
theorem agree_run (keepHistory : Bool) {ops₁ ops₂ : List Op}
    (hops : List.Forall₂ Op.Alike ops₁ ops₂) {d₁ d₂ : Json} (h : d₁.Alike d₂) :
    Agree Result.Alike (run keepHistory d₁ ops₁) (run keepHistory d₂ ops₂) := by
  induction hops generalizing d₁ d₂ with
  | nil => exact .ok ⟨h, .nil⟩
  | @cons op₁ op₂ ops₁ ops₂ hop hrest ih =>
    rw [run, run]
    obtain ⟨a, b, ha, hb, hab⟩ | ⟨e, ha, hb⟩ := (Op.agree_apply hop h).ok_or_error
    · simp only [ha, hb]
      refine (ih hab.doc).map fun r s _ _ hrs => ⟨hrs.doc, ?_⟩
      cases keepHistory with
      | false => exact hrs.history
      | true => exact .cons hab hrs.history
    · rw [ha, hb]
      exact .error e

/-- What a run leaves of a document, through operations with documents for values, are documents:
it is equal to itself. -/
theorem alike_of_run {keepHistory : Bool} {doc : Json} {ops : List Op} {result : Result}
    (hdoc : doc.DistinctNames) (hops : ∀ op ∈ ops, op.DistinctNames)
    (h : run keepHistory doc ops = .ok result) : result.Alike result := by
  have hsame : List.Forall₂ Op.Alike ops ops :=
    List.forall₂_same.mpr fun op hop => Op.alike_self (hops op hop)
  have hagree := agree_run keepHistory hsame (Json.alike_self hdoc)
  rw [h] at hagree
  exact hagree.of_ok

theorem distinctNames_of_applyAll {doc out : Json} {ops : List Op} (hdoc : doc.DistinctNames)
    (hops : ∀ op ∈ ops, op.DistinctNames) (h : applyAll doc ops = .ok out) :
    out.DistinctNames := by
  obtain ⟨result, hrun, hout⟩ := map_eq_ok_iff.mp h
  rw [← hout]
  exact (alike_of_run hdoc hops hrun).doc.left

/-- Equality up to the order of members is an equivalence on the values with distinct names,
and a run cannot tell equal documents and equal operations apart: it leaves equal results,
with or without a history, or fails with one error. -/
theorem run_ignores_member_order :
    (Equivalence fun x y : {x : Json // x.DistinctNames} => x.1.Same y.1) ∧
      ∀ (keepHistory : Bool) (d₁ d₂ : Json) (ops₁ ops₂ : List Op),
        d₁.DistinctNames → d₂.DistinctNames →
        (∀ op ∈ ops₁, op.DistinctNames) → (∀ op ∈ ops₂, op.DistinctNames) →
        d₁.Same d₂ → List.Forall₂ Op.Same ops₁ ops₂ →
        Agree Result.Same (run keepHistory d₁ ops₁) (run keepHistory d₂ ops₂) := by
  refine ⟨Json.equivalence_same, ?_⟩
  intro keepHistory d₁ d₂ ops₁ ops₂ h₁ h₂ hops₁ hops₂ h hops
  have hrun := agree_run keepHistory (Op.forall₂_alike hops hops₁ hops₂) ⟨h₁, h₂, h⟩
  exact hrun.mono fun _ _ hresults => hresults.same

/-- Two documents differ in the order of members at two depths.  The test passes on both, and
the move leaves equal documents, in which the item is still in two orders. -/
theorem run_ignores_member_order_test_and_move :
    Agree Result.Same
        (run true
          (.object [("a", .ofInt 1), ("b", .array [.object [("x", .null), ("y", .ofInt 2)]])])
          [.test [.key "b", .index 0] (.object [("y", .ofInt 2), ("x", .null)]),
            .move [.key "b", .pastEnd] [.key "a"]])
        (run true
          (.object [("b", .array [.object [("y", .ofInt 2), ("x", .null)]]), ("a", .ofInt 1)])
          [.test [.key "b", .index 0] (.object [("x", .null), ("y", .ofInt 2)]),
            .move [.key "b", .pastEnd] [.key "a"]]) ∧
      applyAll
          (.object [("a", .ofInt 1), ("b", .array [.object [("x", .null), ("y", .ofInt 2)]])])
          [.test [.key "b", .index 0] (.object [("y", .ofInt 2), ("x", .null)]),
            .move [.key "b", .pastEnd] [.key "a"]] =
        .ok (.object [("b", .array [.object [("x", .null), ("y", .ofInt 2)], .ofInt 1])]) ∧
      applyAll
          (.object [("b", .array [.object [("y", .ofInt 2), ("x", .null)]]), ("a", .ofInt 1)])
          [.test [.key "b", .index 0] (.object [("x", .null), ("y", .ofInt 2)]),
            .move [.key "b", .pastEnd] [.key "a"]] =
        .ok (.object [("b", .array [.object [("y", .ofInt 2), ("x", .null)], .ofInt 1])]) := by
  refine ⟨?_, by decide, by decide⟩
  apply run_ignores_member_order.2 true
  · decide
  · decide
  · decide
  · decide
  · decide
  · exact .cons (.test _ (by decide)) (.cons (.move _ _) .nil)

end Patch

end JsonEdit
