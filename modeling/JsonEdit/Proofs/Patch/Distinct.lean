import JsonEdit.Json.Writer
import JsonEdit.Proofs.Json.Plain
import JsonEdit.Proofs.Json.Read
import JsonEdit.Proofs.Patch.Provenance

/-!
# No object has a name twice

Objects are kept as lists of members, in which a name could stand twice.  It never does: reading
puts the members of an object one by one, and no operation gives an object a second member with a
name that it has.  So every document on the way of a run has distinct names, and so has what is
recorded of its operations.

There are two groups.

* Sources.  `Document.ofParse` is the document of a text, and `FromText` says of a value that it
  was read, as a whole text or as a part of one.
* Runs.  What a run leaves is equal to itself (`Patch.alike_of_run`), so it is made of documents,
  and `distinct_names_over_runs` is the assembly.
-/

namespace JsonEdit

namespace Json

/-! ## Sources -/

/-- The document that was read from a text. -/
def Document.ofParse {s : String} {x : Json} (h : parse s = .ok x) : Document :=
  ⟨x, (clean_of_parse h).distinctNames⟩

/-- A value that was read: it is the value of a text or a part of one. -/
def FromText (x : Json) : Prop :=
  ∃ text whole p, parse text = .ok whole ∧ whole.select p = some x

theorem FromText.distinctNames {x : Json} (h : x.FromText) : x.DistinctNames := by
  obtain ⟨text, whole, p, hwhole, hpart⟩ := h
  exact ((Document.ofParse hwhole).part hpart).2

end Json

/-! ## Runs -/

namespace Patch

/-- All that a run with a history leaves has distinct names. -/
theorem distinctNames_of_run {doc : Json} {ops : List Op} {result : Result}
    (hdoc : doc.DistinctNames) (hops : ∀ op ∈ ops, op.DistinctNames)
    (h : run true doc ops = .ok result) :
    result.doc.DistinctNames ∧ ∀ outcome ∈ result.history,
      outcome.doc.DistinctNames ∧ ∀ old, outcome.old = some old → old.DistinctNames := by
  have hresult := alike_of_run hdoc hops h
  refine ⟨hresult.doc.left, ?_⟩
  intro outcome houtcome
  have hself : outcome.Alike outcome := List.forall₂_same.mp hresult.history outcome houtcome
  exact ⟨hself.doc.left, fun old hold => Json.distinctNames_of_rel hself.old hold⟩

/-- On a document and through operations with values that were all read from texts, no object has
a name twice: not in the document that any number of operations leaves, whether or not the next
one fails, and not in what a history records.  So all these values come back from their plain
forms as they were, with every member where it was. -/
theorem distinct_names_over_runs {text : String} {doc : Json} {ops : List Op}
    (hdoc : Json.parse text = .ok doc)
    (hops : ∀ op ∈ ops, ∀ value, op.value? = some value → value.FromText) :
    (∀ count out, applyAll doc (ops.take count) = .ok out →
        out.DistinctNames ∧ Json.ofPlain out.toPlain = out) ∧
      ∀ result, run true doc ops = .ok result →
        (result.doc.DistinctNames ∧ Json.ofPlain result.doc.toPlain = result.doc) ∧
        ∀ outcome ∈ result.history,
          (outcome.doc.DistinctNames ∧ Json.ofPlain outcome.doc.toPlain = outcome.doc) ∧
          ∀ old, outcome.old = some old → old.DistinctNames ∧ Json.ofPlain old.toPlain = old := by
  have hread : doc.DistinctNames := (Json.Document.ofParse hdoc).2
  have hvalues : ∀ op ∈ ops, op.DistinctNames := by
    intro op hop value hvalue
    exact (hops op hop value hvalue).distinctNames
  have hback : ∀ x : Json, x.DistinctNames → x.DistinctNames ∧ Json.ofPlain x.toPlain = x := by
    intro x hx
    exact ⟨hx, Json.ofPlain_toPlain hx⟩
  refine ⟨?_, ?_⟩
  · intro count out h
    have hfirst : ∀ op ∈ ops.take count, op.DistinctNames := by
      intro op hop
      exact hvalues op (List.mem_of_mem_take hop)
    exact hback out (distinctNames_of_applyAll hread hfirst h)
  · intro result h
    obtain ⟨hlast, hhistory⟩ := distinctNames_of_run hread hvalues h
    refine ⟨hback _ hlast, ?_⟩
    intro outcome houtcome
    obtain ⟨hafter, hold⟩ := hhistory outcome houtcome
    refine ⟨hback _ hafter, ?_⟩
    intro old hrecorded
    exact hback old (hold old hrecorded)

/-- Two texts have repeated names, and a copy, an addition and a move graft their parts into each
other. -/
theorem distinct_names_over_runs_repeated_names :
    Json.parse (Json.object [("a", .ofInt 1), ("b", .object [("x", .null), ("x", .ofInt 2)]),
        ("a", .array [])]).compact =
      .ok (.object [("a", .array []), ("b", .object [("x", .ofInt 2)])]) ∧
    (Json.object [("y", .ofInt 3)]).FromText ∧
    applyAll (.object [("a", .array []), ("b", .object [("x", .ofInt 2)])])
        [.copy [.key "b", .key "a"] [.key "a"],
          .add [.key "b", .key "x"] (.object [("y", .ofInt 3)]),
          .move [.key "a"] [.key "b", .key "x"]] =
      .ok (.object [("a", .object [("y", .ofInt 3)]), ("b", .object [("a", .array [])])]) ∧
    (Json.object [("a", .object [("y", .ofInt 3)]),
        ("b", .object [("a", .array [])])]).DistinctNames := by
  have hdoc : Json.parse (Json.object [("a", .ofInt 1),
        ("b", .object [("x", .null), ("x", .ofInt 2)]), ("a", .array [])]).compact =
      .ok (.object [("a", .array []), ("b", .object [("x", .ofInt 2)])]) := rfl
  have hvalue : (Json.object [("y", .ofInt 3)]).FromText :=
    ⟨(Json.object [("y", .null), ("y", .ofInt 3)]).compact, _, [], rfl, rfl⟩
  have hops : ∀ op ∈ [Op.copy [.key "b", .key "a"] [.key "a"],
        .add [.key "b", .key "x"] (.object [("y", .ofInt 3)]),
        .move [.key "a"] [.key "b", .key "x"]],
      ∀ value, op.value? = some value → value.FromText := by
    intro op hop value hold
    simp only [List.mem_cons, List.not_mem_nil, or_false] at hop
    rcases hop with h | h | h <;> rw [h] at hold <;> cases hold
    exact hvalue
  refine ⟨hdoc, hvalue, rfl, ?_⟩
  exact ((distinct_names_over_runs hdoc hops).1 3 _ rfl).1

end Patch

end JsonEdit
