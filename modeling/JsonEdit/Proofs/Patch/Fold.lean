import JsonEdit.Proofs.Patch.Congruence

/-!
# A run is a fold

A run takes one operation after the other to the document that the last one left, and stops at
the first that fails.  So it can be cut anywhere, and what comes behind the cut has no part in
what happens before it.  The history is a record beside the fold: it says of each operation
what the fold was before and after it, and changes nothing.

There are three groups.

* One operation more.  `applyAll_cons` and `run_cons_eq_ok_iff` take a run apart at its first
  operation, and `invariant_of_applyAll` is the induction that follows from it.
* Cuts.  `applyAll_eq_foldlM` names the fold, `applyAll_append` cuts it, and
  `applyAll_eq_error_iff` cuts it in front of the operation that fails.
* The history.  `map_doc_run` compares the runs with and without one, and
  `exists_outcome_of_run` reads the record of an operation.
-/

namespace JsonEdit

namespace Op

/-- What an operation leaves does not depend on what is recorded of it. -/
theorem map_doc_apply (op : Op) (doc : Json) : (op.apply doc).map Outcome.doc = op.effect doc := by
  unfold apply
  cases op.effect doc <;> rfl

/-- The record of an operation has what its path led to before it. -/
theorem old_of_apply {op : Op} {doc : Json} {outcome : Outcome} (h : op.apply doc = .ok outcome) :
    outcome.old = doc.select op.path := by
  rw [apply, map_eq_ok_iff] at h
  obtain ⟨out, -, rfl⟩ := h
  rfl

end Op

namespace Patch

/-! ## One operation more -/

theorem applyAll_nil (doc : Json) : applyAll doc [] = .ok doc := rfl

theorem applyAll_cons (doc : Json) (op : Op) (ops : List Op) :
    applyAll doc (op :: ops) = (op.effect doc).bind fun next => applyAll next ops := by
  unfold applyAll
  rw [run, ← Op.map_doc_apply]
  cases op.apply doc with
  | error e => rfl
  | ok outcome =>
    show ((run false outcome.doc ops).map _).map _ = (run false outcome.doc ops).map _
    cases run false outcome.doc ops <;> rfl

theorem applyAll_cons_eq_ok_iff {doc out : Json} {op : Op} {ops : List Op} :
    applyAll doc (op :: ops) = .ok out ↔
      ∃ next, op.effect doc = .ok next ∧ applyAll next ops = .ok out := by
  rw [applyAll_cons]
  cases op.effect doc with
  | error e => simp [Except.bind]
  | ok next => simp [Except.bind]

/-- What every operation of a run keeps, the run keeps. -/
theorem invariant_of_applyAll {P : Json → Prop} {doc out : Json} {ops : List Op} (hdoc : P doc)
    (hstep : ∀ op ∈ ops, ∀ before after, P before → op.effect before = .ok after → P after)
    (h : applyAll doc ops = .ok out) : P out := by
  induction ops generalizing doc with
  | nil =>
    cases h
    exact hdoc
  | cons op ops ih =>
    obtain ⟨next, hop, hothers⟩ := applyAll_cons_eq_ok_iff.mp h
    refine ih (hstep op List.mem_cons_self doc next hdoc hop) ?_ hothers
    intro later hlater
    exact hstep later (List.mem_cons_of_mem op hlater)

theorem run_nil_eq_ok_iff {keepHistory : Bool} {doc : Json} {result : Result} :
    run keepHistory doc [] = .ok result ↔ result = ⟨doc, []⟩ := by
  rw [run, Except.ok.injEq, eq_comm]

/-- A run that succeeds has applied its first operation and then run the others. -/
theorem run_cons_eq_ok_iff {keepHistory : Bool} {doc : Json} {op : Op} {ops : List Op}
    {result : Result} :
    run keepHistory doc (op :: ops) = .ok result ↔
      ∃ outcome rest, op.apply doc = .ok outcome ∧ run keepHistory outcome.doc ops = .ok rest ∧
        result = ⟨rest.doc, if keepHistory then outcome :: rest.history else rest.history⟩ := by
  rw [run]
  cases op.apply doc with
  | error e => simp
  | ok outcome =>
    simp only [map_eq_ok_iff, Except.ok.injEq, eq_comm (b := result)]
    constructor
    · rintro ⟨rest, hrest, hresult⟩
      exact ⟨outcome, rest, rfl, hrest, hresult⟩
    · rintro ⟨_, rest, houtcome, hrest, hresult⟩
      subst houtcome
      exact ⟨rest, hrest, hresult⟩

/-! ## Cuts -/

/-- A run without a history is the fold of the operations over the document. -/
theorem applyAll_eq_foldlM (doc : Json) (ops : List Op) :
    applyAll doc ops = ops.foldlM (fun current op => op.effect current) doc := by
  induction ops generalizing doc with
  | nil => rfl
  | cons op ops ih =>
    rw [applyAll_cons, List.foldlM_cons]
    cases op.effect doc with
    | error e => rfl
    | ok next => exact ih next

/-- A run goes on from what the first operations left. -/
theorem applyAll_append (doc : Json) (ops later : List Op) :
    applyAll doc (ops ++ later) = (applyAll doc ops).bind fun next => applyAll next later := by
  rw [applyAll_eq_foldlM, List.foldlM_append, ← applyAll_eq_foldlM]
  cases applyAll doc ops with
  | error e => rfl
  | ok next => exact (applyAll_eq_foldlM next later).symm

/-- The error of a run is that of the first operation that fails, whatever comes behind it. -/
theorem applyAll_eq_error_iff {doc : Json} {ops : List Op} {e : Error} :
    applyAll doc ops = .error e ↔
      ∃ front op back before, ops = front ++ op :: back ∧ applyAll doc front = .ok before ∧
        op.apply before = .error e := by
  constructor
  · intro h
    induction ops generalizing doc with
    | nil => simp [applyAll_nil] at h
    | cons op ops ih =>
      rw [applyAll_cons, ← Op.map_doc_apply] at h
      cases hop : op.apply doc with
      | error cause =>
        obtain rfl : cause = e := by simpa [hop, Except.map, Except.bind] using h
        exact ⟨[], op, ops, doc, rfl, rfl, hop⟩
      | ok outcome =>
        rw [hop] at h
        obtain ⟨front, bad, back, before, rfl, hfront, hbad⟩ := ih h
        refine ⟨op :: front, bad, back, before, rfl, ?_, hbad⟩
        rw [applyAll_cons, Op.effect_of_apply hop]
        exact hfront
  · rintro ⟨front, op, back, before, hsplit, hfront, hop⟩
    rw [hsplit, applyAll_append, hfront, Except.bind, applyAll_cons, ← Op.map_doc_apply, hop]
    rfl

/-! ## The history -/

/-- Whether a history is kept does not change where a run ends. -/
theorem map_doc_run (keepHistory : Bool) (doc : Json) (ops : List Op) :
    (run keepHistory doc ops).map Result.doc = applyAll doc ops := by
  induction ops generalizing doc with
  | nil => rfl
  | cons op ops ih =>
    rw [applyAll_cons, ← Op.map_doc_apply, run]
    cases op.apply doc with
    | error e => rfl
    | ok outcome =>
      show ((run keepHistory outcome.doc ops).map _).map _ = applyAll outcome.doc ops
      rw [← ih]
      cases run keepHistory outcome.doc ops <;> rfl

theorem history_eq_nil_of_run {doc : Json} {ops : List Op} {result : Result}
    (h : run false doc ops = .ok result) : result.history = [] := by
  induction ops generalizing doc result with
  | nil =>
    rw [run_nil_eq_ok_iff.mp h]
  | cons op ops ih =>
    obtain ⟨outcome, rest, -, hrest, rfl⟩ := run_cons_eq_ok_iff.mp h
    exact ih hrest

theorem length_history_of_run {doc : Json} {ops : List Op} {result : Result}
    (h : run true doc ops = .ok result) : result.history.length = ops.length := by
  induction ops generalizing doc result with
  | nil =>
    rw [run_nil_eq_ok_iff.mp h]
    rfl
  | cons op ops ih =>
    obtain ⟨outcome, rest, -, hrest, rfl⟩ := run_cons_eq_ok_iff.mp h
    simp [ih hrest]

/-- The record of an operation is its outcome on the document that the operations in front of
it left. -/
theorem exists_outcome_of_run {doc : Json} {ops : List Op} {result : Result}
    (h : run true doc ops = .ok result) {i : Nat} {op : Op} (hop : ops[i]? = some op) :
    ∃ before outcome, applyAll doc (ops.take i) = .ok before ∧ op.apply before = .ok outcome ∧
      result.history[i]? = some outcome := by
  induction ops generalizing doc result i with
  | nil => simp at hop
  | cons first others ih =>
    obtain ⟨outcome, rest, hfirst, hrest, rfl⟩ := run_cons_eq_ok_iff.mp h
    cases i with
    | zero =>
      obtain rfl : first = op := by simpa using hop
      exact ⟨doc, outcome, rfl, hfirst, rfl⟩
    | succ i =>
      obtain ⟨before, later, hbefore, hlater, hrecord⟩ := ih hrest (by simpa using hop)
      refine ⟨before, later, ?_, hlater, by simpa using hrecord⟩
      rw [List.take_succ_cons, applyAll_cons, Op.effect_of_apply hfirst]
      exact hbefore

/-- The first operations up to and with this one leave what is recorded of it. -/
theorem applyAll_take_succ {doc before : Json} {ops : List Op} {i : Nat} {op : Op}
    {outcome : Outcome} (hop : ops[i]? = some op) (hbefore : applyAll doc (ops.take i) = .ok before)
    (houtcome : op.apply before = .ok outcome) :
    applyAll doc (ops.take (i + 1)) = .ok outcome.doc := by
  rw [List.take_add_one, hop, applyAll_append, hbefore]
  show applyAll before [op] = _
  rw [applyAll_cons, Op.effect_of_apply houtcome]
  rfl

/-- A run ends at the last document of its history, and at its first document if it has none. -/
theorem doc_eq_last_of_run {doc : Json} {ops : List Op} {result : Result}
    (h : run true doc ops = .ok result) :
    result.doc = (result.history.getLast?.map Outcome.doc).getD doc := by
  induction ops generalizing doc result with
  | nil =>
    rw [run_nil_eq_ok_iff.mp h]
    rfl
  | cons op ops ih =>
    obtain ⟨outcome, rest, -, hrest, rfl⟩ := run_cons_eq_ok_iff.mp h
    have hlast := ih hrest
    cases hhistory : rest.history.getLast? with
    | none => simpa [hhistory, List.getLast?_cons] using hlast
    | some last => simpa [hhistory, List.getLast?_cons] using hlast

/-! ## The whole law -/

/-- A run is the fold of its operations, so it can be cut anywhere, and its error is that of the
first operation that fails on what the ones in front of it left.  A history changes neither the
error nor the last document.  It has one record for each operation, with what the operations up
to and with it leave and what its path led to before it; the last record has the last document.
Without a history there are no records. -/
theorem run_is_fold_beside_history (doc : Json) (ops later : List Op) :
    applyAll doc ops = ops.foldlM (fun current op => op.effect current) doc ∧
      applyAll doc (ops ++ later) = ((applyAll doc ops).bind fun next => applyAll next later) ∧
      (∀ e, applyAll doc ops = .error e ↔
        ∃ front op back before, ops = front ++ op :: back ∧ applyAll doc front = .ok before ∧
          op.apply before = .error e) ∧
      (run true doc ops).map Result.doc = (run false doc ops).map Result.doc ∧
      (∀ result, run false doc ops = .ok result → result.history = []) ∧
      ∀ result, run true doc ops = .ok result →
        result.history.length = ops.length ∧
        (∀ i op, ops[i]? = some op → ∃ before outcome, result.history[i]? = some outcome ∧
          applyAll doc (ops.take i) = .ok before ∧ outcome.old = before.select op.path ∧
          applyAll doc (ops.take (i + 1)) = .ok outcome.doc) ∧
        result.doc = (result.history.getLast?.map Outcome.doc).getD doc := by
  refine ⟨applyAll_eq_foldlM doc ops, applyAll_append doc ops later, fun e => applyAll_eq_error_iff,
    map_doc_run true doc ops, fun result => history_eq_nil_of_run, ?_⟩
  intro result h
  refine ⟨length_history_of_run h, ?_, doc_eq_last_of_run h⟩
  intro i op hop
  obtain ⟨before, outcome, hbefore, houtcome, hrecord⟩ := exists_outcome_of_run h hop
  exact ⟨before, outcome, hrecord, hbefore, Op.old_of_apply houtcome,
    applyAll_take_succ hop hbefore houtcome⟩

/-- A copy that appends and a removal that shifts.  The second record has the item that the
removal met, and a third operation that fails there fails the run at once. -/
theorem run_is_fold_beside_history_copy_and_remove :
    (∃ before, applyAll (.array [.ofInt 1, .null]) [.copy [.pastEnd] [.index 0]] = .ok before ∧
        some .null = before.select [.index 1] ∧
        applyAll (.array [.ofInt 1, .null]) [.copy [.pastEnd] [.index 0], .remove [.index 1]] =
          .ok (.array [.ofInt 1, .ofInt 1])) ∧
      applyAll (.array [.ofInt 1, .null])
          [.copy [.pastEnd] [.index 0], .remove [.index 1], .remove [.index 2], .remove []] =
        .error (.pointer (.indexOutOfRange [.index 2] 2 2)) := by
  have hrun : run true (.array [.ofInt 1, .null])
      [.copy [.pastEnd] [.index 0], .remove [.index 1]] =
        .ok ⟨.array [.ofInt 1, .ofInt 1], [⟨.array [.ofInt 1, .null, .ofInt 1], none⟩,
          ⟨.array [.ofInt 1, .ofInt 1], some .null⟩]⟩ := by decide
  obtain ⟨-, -, -, -, -, hhistory⟩ := run_is_fold_beside_history (.array [.ofInt 1, .null])
    [.copy [.pastEnd] [.index 0], .remove [.index 1]] []
  obtain ⟨-, hrecords, -⟩ := hhistory _ hrun
  obtain ⟨-, -, herror, -⟩ := run_is_fold_beside_history (.array [.ofInt 1, .null])
    [.copy [.pastEnd] [.index 0], .remove [.index 1], .remove [.index 2], .remove []] []
  refine ⟨?_, ?_⟩
  · obtain ⟨before, outcome, hrecord, hbefore, hold, hdoc⟩ := hrecords 1 _ rfl
    obtain rfl : ⟨.array [.ofInt 1, .ofInt 1], some .null⟩ = outcome := by simpa using hrecord
    exact ⟨before, hbefore, hold, hdoc⟩
  · exact (herror _).mpr ⟨[.copy [.pastEnd] [.index 0], .remove [.index 1]], .remove [.index 2],
      [.remove []], .array [.ofInt 1, .ofInt 1], rfl, by decide, by decide⟩

end Patch

end JsonEdit
