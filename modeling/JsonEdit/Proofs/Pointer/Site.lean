import JsonEdit.Proofs.Pointer.Factor

/-!
# Sites cut from the whole pointer

A lookup and an edit report the site of an error relative to the value that they have come to,
and every value on the way back puts its own step in front.  The same walks can hold on to the
whole pointer instead, and cut the site from its front where the error is met.  This module
states both walks in that form, with every failure that they check for, and proves that they are
the walks of `Json.resolve` and `Edit.apply`.

There are three groups.  The induction is on the steps that are left of a pointer, and the steps
that have been taken are carried as its front.

* Cuts.  What is cut from a pointer behind the step that follows its front.
* Lookups.  `resolveAlong` counts the steps that it has taken and cuts the site behind them.
* Edits.  `applyAlong` knows the steps that are left and cuts the site in front of them.  Where it
  puts a changed item back it checks the index a second time, and an index that was in range on
  the way down passes.
-/

namespace JsonEdit

namespace Pointer

/-! ## Cuts -/

/-- The steps of a pointer in front of the last ones. -/
def before (path rest : Pointer) : Pointer := path.take (path.length - rest.length)

theorem before_cons (c : Pointer) (step : Step) (rest : Pointer) :
    before (c ++ step :: rest) rest = c ++ [step] := by
  rw [before, List.append_cons, List.length_append, Nat.add_sub_cancel, List.take_left]

theorem take_length_succ (c : Pointer) (step : Step) (rest : Pointer) :
    (c ++ step :: rest).take (c.length + 1) = c ++ [step] := by
  rw [List.take_length_add_append, List.take_succ_cons, List.take_zero]

namespace Error

theorem under_append (p q : Pointer) (e : Error) : e.under (p ++ q) = (e.under q).under p :=
  List.foldr_append

theorem under_typeMismatch (p site : Pointer) (found : Json.Kind) :
    (typeMismatch site found).under p = typeMismatch (p ++ site) found :=
  under_of_below (f := (typeMismatch · found)) (fun _ _ => rfl) p site

theorem under_onTheWay (p : Pointer) (e : Error) : e.onTheWay.under p = (e.under p).onTheWay := by
  induction p with
  | nil => rfl
  | cons step rest ih => rw [under_cons, under_cons, ih, onTheWay_below]

end Error

end Pointer

open Pointer (before before_cons take_length_succ)

/-! ## Lookups -/

namespace Json

/-- The value that the last steps of a pointer lead to, from the value that the steps in front of
them have led to, of which there are this many. -/
def resolveAlong (path : Pointer) : Nat → Json → Pointer → Except Pointer.Error Json
  | _, node, [] => .ok node
  | depth, node, step :: rest =>
    let site := path.take (depth + 1)
    match node, step with
    | _, .pastEnd => .error (.pastEnd site)
    | object members, step =>
      match step.asKey?.bind (Members.get? members) with
      | some child => resolveAlong path (depth + 1) child rest
      | none => .error (.notFound site)
    | array items, .index position =>
      match items[position]? with
      | some child => resolveAlong path (depth + 1) child rest
      | none => .error (.notFound site)
    | node, _ => .error (.typeMismatch site node.kind)

variable {node child : Json} {step : Step}

/-- The walk goes on at the part that a step leads to. -/
theorem resolveAlong_of_child? (h : node.child? step = some child) (path : Pointer) (depth : Nat)
    (rest : Pointer) :
    resolveAlong path depth node (step :: rest) = resolveAlong path (depth + 1) child rest := by
  cases node with
  | object members =>
    cases step with
    | pastEnd => simp [child?, Step.asKey?] at h
    | index i | key name =>
      rw [child?] at h
      simp only [resolveAlong, h]
  | array items =>
    cases step with
    | index i =>
      rw [child?] at h
      simp only [resolveAlong, h]
    | key name | pastEnd => simp [child?] at h
  | _ => simp [child?] at h

/-- The walk ends at a step that leads nowhere. -/
theorem resolveAlong_of_child?_eq_none (h : node.child? step = none) (path : Pointer) (depth : Nat)
    (rest : Pointer) :
    resolveAlong path depth node (step :: rest) =
      .error (node.deadEnd (path.take (depth + 1)) step) := by
  cases node with
  | object members =>
    cases step with
    | pastEnd => rfl
    | index i | key name =>
      rw [child?] at h
      simp only [resolveAlong, h]
      rfl
  | array items =>
    cases step with
    | index i =>
      rw [child?] at h
      simp only [resolveAlong, h]
      rfl
    | key name | pastEnd => rfl
  | _ => cases step <;> rfl

/-- What is left of a walk along a pointer is the lookup of what is left of the pointer. -/
theorem resolveAlong_append (c p : Pointer) (node : Json) :
    resolveAlong (c ++ p) c.length node p = (node.resolve p).mapError (·.under c) := by
  induction p generalizing c node with
  | nil => rfl
  | cons step rest ih =>
    rw [resolve]
    cases hchild : node.child? step with
    | none =>
      rw [resolveAlong_of_child?_eq_none hchild, follow_of_child?_eq_none hchild,
        take_length_succ]
      exact congrArg Except.error (under_deadEnd node c [step] step).symm
    | some child =>
      have hrest := ih (c ++ [step]) child
      rw [← List.append_cons, List.length_append, List.length_singleton] at hrest
      rw [resolveAlong_of_child? hchild, child?_eq_some_iff.mp hchild, hrest]
      show _ = ((child.resolve rest).mapError (·.below step)).mapError (·.under c)
      cases child.resolve rest with
      | ok value => rfl
      | error e => exact congrArg Except.error (Pointer.Error.under_append c [step] e)

/-- The walk that cuts its sites from the whole pointer is the lookup. -/
theorem resolveAlong_eq_resolve (doc : Json) (p : Pointer) :
    resolveAlong p 0 doc p = doc.resolve p := by
  have hwalk := resolveAlong_append [] p doc
  rw [List.nil_append, List.length_nil] at hwalk
  rw [hwalk]
  cases doc.resolve p <;> rfl

end Json

/-! ## Edits -/

namespace Edit

open Json

/-- The name of the member that a step leads to. -/
def memberName (site : Pointer) (step : Step) : Except Pointer.Error String :=
  match step.asKey? with
  | some name => .ok name
  | none => .error (.pastEnd site)

/-- A value that is edited at a step and the last steps of a pointer behind it. -/
def applyAlong (edit : Edit) (path : Pointer) : Json → Step → Pointer → Except Pointer.Error Json
  | node, step, [] =>
    let site := before path []
    match node, step, edit with
    | array items, .pastEnd, add value => .ok (array (Items.append items value))
    | _, .pastEnd, _ => .error (.pastEnd site)
    | object members, step, edit => do
      let name ← memberName site step
      pure (object (edit.atMember members name))
    | array items, .index position, edit =>
      match edit.atItem? items position with
      | some changed => .ok (array changed)
      | none => .error (.indexOutOfRange site position items.length)
    | node, _, _ => .error (.typeMismatch site node.kind)
  | node, step, next :: tail =>
    let site := before path (next :: tail)
    match node, step with
    | object members, step => do
      let name ← memberName site step
      match Members.get? members name with
      | none => .error (.missingIntermediate site)
      | some child =>
        let updated ← applyAlong edit path child next tail
        pure (object (Members.put members name updated))
    | array items, .index position =>
      match items[position]? with
      | none => .error (.missingIntermediate site)
      | some child => do
        let updated ← applyAlong edit path child next tail
        match Items.replace? items position updated with
        | some changed => pure (array changed)
        | none => .error (.missingIntermediate site)
    | _, .pastEnd => .error (.pastEnd site)
    | node, _ => .error (.typeMismatch site node.kind)

variable {node child : Json} {step : Step}

/-- An item that was found can be put back changed. -/
theorem replace?_of_getElem? {items : List Json} {i : Nat} (h : items[i]? = some child)
    (value : Json) : Items.replace? items i value = some (items.set i value) := by
  rw [Items.replace?, if_pos (List.getElem?_eq_some_iff.mp h).1]

/-- At the last step the walk does what the edit does there. -/
theorem applyAlong_nil (edit : Edit) (c : Pointer) (node : Json) (step : Step) :
    edit.applyAlong (c ++ [step]) node step [] =
      (edit.apply node [step]).mapError (·.under c) := by
  have hsite : before (c ++ [step]) [] = c ++ [step] := before_cons c step []
  have hpastEnd := Pointer.Error.under_pastEnd c [.pastEnd]
  have hmismatch := Pointer.Error.under_typeMismatch c [step] node.kind
  cases node with
  | object members =>
    cases step with
    | pastEnd => cases edit <;> simp [applyAlong, apply, atStep, Step.asKey?, hsite, hpastEnd]
    | index i | key name => cases edit <;> rfl
  | array items =>
    cases step with
    | pastEnd => cases edit <;> simp [applyAlong, apply, atStep, hsite, hpastEnd]
    | index i =>
      simp only [applyAlong, apply, atStep, hsite]
      cases edit.atItem? items i with
      | some changed => rfl
      | none => exact congrArg Except.error (Pointer.Error.under_indexOutOfRange c _ _ _).symm
    | key name => cases edit <;> simp [applyAlong, apply, atStep, hsite, hmismatch]
  | _ =>
    cases step <;> cases edit <;> simp [applyAlong, apply, atStep, hsite, hpastEnd, hmismatch]

/-- Before the last step the walk edits the part that the step leads to, and puts it back. -/
theorem applyAlong_of_child? (h : node.child? step = some child) (edit : Edit) (path : Pointer)
    (next : Step) (tail : Pointer) :
    edit.applyAlong path node step (next :: tail) =
      (edit.applyAlong path child next tail).map (withPart · node step) := by
  cases node with
  | object members =>
    cases step with
    | pastEnd => simp [child?, Step.asKey?] at h
    | index i | key name =>
      simp only [child?, Step.asKey?, Option.bind_some] at h
      simp only [applyAlong, memberName, Step.asKey?, bind, Except.bind, h]
      cases edit.applyAlong path child next tail <;> rfl
  | array items =>
    cases step with
    | index i =>
      simp only [child?] at h
      simp only [applyAlong, h, bind, Except.bind, replace?_of_getElem? h]
      cases edit.applyAlong path child next tail <;> rfl
    | key name | pastEnd => simp [child?] at h
  | _ => simp [child?] at h

/-- The walk ends before the last step at a step that leads nowhere. -/
theorem applyAlong_of_child?_eq_none (h : node.child? step = none) (edit : Edit) (path : Pointer)
    (next : Step) (tail : Pointer) :
    edit.applyAlong path node step (next :: tail) =
      .error (node.deadEnd (before path (next :: tail)) step).onTheWay := by
  cases node with
  | object members =>
    cases step with
    | pastEnd => rfl
    | index i | key name =>
      simp only [child?, Step.asKey?, Option.bind_some] at h
      simp only [applyAlong, memberName, Step.asKey?, bind, Except.bind, h]
      rfl
  | array items =>
    cases step with
    | index i =>
      simp only [child?] at h
      simp only [applyAlong, h]
      rfl
    | key name | pastEnd => rfl
  | _ => cases step <;> rfl

/-- What is left of an edit along a pointer is the edit at what is left of the pointer. -/
theorem applyAlong_append (edit : Edit) (c : Pointer) (node : Json) (step : Step)
    (rest : Pointer) :
    edit.applyAlong (c ++ step :: rest) node step rest =
      (edit.apply node (step :: rest)).mapError (·.under c) := by
  induction rest generalizing c node step with
  | nil => exact applyAlong_nil edit c node step
  | cons next tail ih =>
    cases hchild : node.child? step with
    | none =>
      rw [applyAlong_of_child?_eq_none hchild, before_cons,
        apply_cons_of_child?_eq_none edit hchild (List.cons_ne_nil next tail)]
      rw [mapError_error, Pointer.Error.under_onTheWay, under_deadEnd]
    | some child =>
      have hrest := ih (c ++ [step]) child next
      rw [← List.append_cons] at hrest
      rw [applyAlong_of_child? hchild, hrest, apply_cons edit hchild (List.cons_ne_nil next tail)]
      cases edit.apply child (next :: tail) with
      | ok changed => rfl
      | error e => exact congrArg Except.error (Pointer.Error.under_append c [step] e)

/-- The edit that cuts its sites from the whole pointer is the edit. -/
theorem applyAlong_eq_apply (edit : Edit) (doc : Json) (step : Step) (rest : Pointer) :
    edit.applyAlong (step :: rest) doc step rest = edit.apply doc (step :: rest) := by
  have hwalk := edit.applyAlong_append [] doc step rest
  rw [List.nil_append] at hwalk
  rw [hwalk]
  cases edit.apply doc (step :: rest) <;> rfl

end Edit

end JsonEdit
