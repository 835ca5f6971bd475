import JsonEdit.Proofs.Json.Equality
import JsonEdit.Proofs.Pointer.Place
import Mathlib.Data.List.InsertIdx

/-!
# Lookups and edits respect equality

Two documents that are equal up to the order of members cannot be told apart by a pointer.
It leads to equal values in both, and an edit of both either leaves equal documents or fails
with one error.  The values that are compared are documents throughout, and `Json.Alike` carries
the proofs of it from what a lookup or an edit gets to what it gives.

There are five groups.

* Agreement.  `Agree` compares two results: related values, or one and the same error.
* Lookups.  `rel_child?` is the step and `rel_select` the walk.
* Parts.  A changed member or item is seen at its own place alone, so equal containers stay
  equal if they are changed alike.
* Edits, by the recursion on the pointer.
* Copies and moves, which are made of lookups and edits.
-/

namespace JsonEdit

/-! ## Agreement -/

/-- Two results agree: both are values and the values are related, or both are one error. -/
inductive Agree {α β ε : Type} (R : α → β → Prop) : Except ε α → Except ε β → Prop where
  | ok {x : α} {y : β} (h : R x y) : Agree R (.ok x) (.ok y)
  | error (e : ε) : Agree R (.error e) (.error e)

namespace Agree

variable {α β α' β' ε ε' : Type} {R : α → β → Prop} {S : α' → β' → Prop} {x : Except ε α}
  {y : Except ε β}

theorem ok_or_error (h : Agree R x y) :
    (∃ a b, x = .ok a ∧ y = .ok b ∧ R a b) ∨ ∃ e, x = .error e ∧ y = .error e := by
  cases h with
  | ok hab => exact .inl ⟨_, _, rfl, rfl, hab⟩
  | error e => exact .inr ⟨e, rfl, rfl⟩

/-- What two results that agree give are related. -/
theorem of_ok {a : α} {b : β} (h : Agree R (.ok a : Except ε α) (.ok b)) : R a b := by
  cases h with
  | ok hab => exact hab

/-- Results that agree for one relation agree for each relation that follows from it. -/
theorem mono {R' : α → β → Prop} (h : Agree R x y) (himp : ∀ a b, R a b → R' a b) :
    Agree R' x y := by
  cases h with
  | ok hab => exact .ok (himp _ _ hab)
  | error e => exact .error e

theorem mapError (h : Agree R x y) (f : ε → ε') : Agree R (x.mapError f) (y.mapError f) := by
  cases h with
  | ok hxy => exact .ok hxy
  | error e => exact .error (f e)

theorem map (h : Agree R x y) {f : α → α'} {g : β → β'}
    (hfg : ∀ a b, x = .ok a → y = .ok b → R a b → S (f a) (g b)) :
    Agree S (x.map f) (y.map g) := by
  cases h with
  | ok hxy => exact .ok (hfg _ _ rfl rfl hxy)
  | error e => exact .error e

end Agree

namespace Json

/-! ## Lookups -/

theorem isScalar_eq_of_same {x y : Json} (h : x.Same y) : x.isScalar = y.isScalar := by
  have hkind := kind_eq_of_same h
  cases x <;> cases y <;> first | rfl | simp [kind] at hkind

theorem child?_of_isScalar {x : Json} (hx : x.isScalar = true) (step : Step) :
    x.child? step = none := by
  cases x with
  | object members | array items => simp [isScalar] at hx
  | _ => rfl

/-- A step leads to equal parts of equal values. -/
theorem rel_child? {x y : Json} (h : x.Alike y) (step : Step) :
    Option.Rel Alike (x.child? step) (y.child? step) := by
  induction x, y, kind_eq_of_same h.same using kind_cases with
  | object ms ns =>
    obtain ⟨-, -, hparts⟩ := alike_object_iff.mp h
    cases hname : step.asKey? with
    | none => simp [child?, hname]
    | some name => simpa [child?, hname] using hparts name
  | array xs ys =>
    cases step with
    | index i => exact alike_array_iff.mp h i
    | key name | pastEnd => exact .none
  | scalar x y hkind hxscalar hyscalar =>
    rw [child?_of_isScalar hxscalar, child?_of_isScalar hyscalar]
    exact .none

/-- A pointer leads to equal values in equal documents. -/
theorem rel_select {x y : Json} (h : x.Alike y) (p : Pointer) :
    Option.Rel Alike (x.select p) (y.select p) := by
  induction p generalizing x y with
  | nil => exact .some h
  | cons step rest ih =>
    rw [select, select]
    obtain ⟨hleft, hright⟩ | ⟨child, other, hleft, hright, hparts⟩ :=
      rel_cases (rel_child? h step)
    · rw [hleft, hright]
      exact .none
    · rw [hleft, hright]
      exact ih hparts

/-- Equal values pass equal tests. -/
theorem test_congr {x y v w : Json} (hxy : x.Alike y) (hvw : v.Alike w) (p : Pointer) :
    x.test p v = y.test p w := by
  rw [test, test]
  obtain ⟨hleft, hright⟩ | ⟨a, b, hleft, hright, hab⟩ := rel_cases (rel_select hxy p)
  · rw [hleft, hright]
  · rw [hleft, hright, Bool.eq_iff_iff]
    constructor
    · intro hav
      have hboth : a.Alike v := ⟨hab.left, hvw.left, hav⟩
      exact (hab.symm.trans (hboth.trans hvw)).same
    · intro hbw
      have hboth : b.Alike w := ⟨hab.right, hvw.right, hbw⟩
      exact (hab.trans (hboth.trans hvw.symm)).same

/-! ## Parts -/

/-- Changed alike, equal objects stay equal. -/
theorem alike_assign {ms ns : List (String × Json)} (h : (object ms).Alike (object ns))
    (name : String) {a b : Option Json} (hab : Option.Rel Alike a b) :
    (object (Members.assign ms name a)).Alike (object (Members.assign ns name b)) := by
  obtain ⟨hms, hns, hparts⟩ := alike_object_iff.mp h
  refine alike_object_iff.mpr ⟨Members.nodup_keys_assign hms name a,
    Members.nodup_keys_assign hns name b, fun other => ?_⟩
  rw [Members.get?_assign hms, Members.get?_assign hns]
  split
  · exact hab
  · exact hparts other

section Items

variable {xs ys : List Json} {v w : Json}

theorem length_eq_of_alike (h : (array xs).Alike (array ys)) : xs.length = ys.length := by
  rw [alike_array_iff] at h
  apply Nat.le_antisymm
  · obtain ⟨hleft, -⟩ | ⟨x, y, -, hright, -⟩ := rel_cases (h ys.length)
    · exact List.getElem?_eq_none_iff.mp hleft
    · simp at hright
  · obtain ⟨-, hright⟩ | ⟨x, y, hleft, -, -⟩ := rel_cases (h xs.length)
    · exact List.getElem?_eq_none_iff.mp hright
    · simp at hleft

theorem alike_insertIdx (h : (array xs).Alike (array ys)) (hvw : v.Alike w) (i : Nat) :
    (array (xs.insertIdx i v)).Alike (array (ys.insertIdx i w)) := by
  refine alike_array_iff.mpr fun j => ?_
  rw [List.getElem?_insertIdx, List.getElem?_insertIdx, length_eq_of_alike h]
  rw [alike_array_iff] at h
  split
  · exact h j
  · split
    · split
      · exact .some hvw
      · exact .none
    · exact h (j - 1)

theorem alike_set (h : (array xs).Alike (array ys)) (hvw : v.Alike w) (i : Nat) :
    (array (xs.set i v)).Alike (array (ys.set i w)) := by
  refine alike_array_iff.mpr fun j => ?_
  rw [List.getElem?_set, List.getElem?_set, length_eq_of_alike h]
  split
  · split
    · exact .some hvw
    · exact .none
  · exact alike_array_iff.mp h j

theorem alike_eraseIdx (h : (array xs).Alike (array ys)) (i : Nat) :
    (array (xs.eraseIdx i)).Alike (array (ys.eraseIdx i)) := by
  rw [alike_array_iff] at h
  refine alike_array_iff.mpr fun j => ?_
  rw [List.getElem?_eraseIdx, List.getElem?_eraseIdx]
  split
  · exact h j
  · exact h (j + 1)

theorem alike_concat (h : (array xs).Alike (array ys)) (hvw : v.Alike w) :
    (array (xs ++ [v])).Alike (array (ys ++ [w])) := by
  rw [← List.insertIdx_length_self, ← List.insertIdx_length_self, length_eq_of_alike h]
  exact alike_insertIdx h hvw ys.length

end Items

end Json

namespace Edit

open Json

/-- Two edits do the same, with equal values. -/
inductive Alike : Edit → Edit → Prop where
  | add {v w : Json} (h : v.Alike w) : Alike (add v) (add w)
  | replace {v w : Json} (h : v.Alike w) : Alike (replace v) (replace w)
  | remove : Alike remove remove

theorem Alike.rel_value? {e f : Edit} (h : e.Alike f) :
    Option.Rel Json.Alike e.value? f.value? := by
  cases h with
  | add h | replace h => exact .some h
  | remove => exact .none

theorem withPart_of_isScalar {x : Json} (hx : x.isScalar = true) (v : Json) (step : Step) :
    withPart v x step = x := by
  cases x with
  | object members | array items => simp [isScalar] at hx
  | _ => rfl

theorem alike_withPart {x y v w : Json} (hxy : x.Alike y) (hvw : v.Alike w) (step : Step) :
    (withPart v x step).Alike (withPart w y step) := by
  induction x, y, kind_eq_of_same hxy.same using kind_cases with
  | object ms ns =>
    cases hname : step.asKey? with
    | none => simpa only [withPart, hname] using hxy
    | some name =>
      simp only [withPart, hname]
      exact alike_assign (a := some v) (b := some w) hxy name (.some hvw)
  | array xs ys =>
    cases step with
    | index i => exact alike_set hxy hvw i
    | key name | pastEnd => exact hxy
  | scalar x y hkind hxscalar hyscalar =>
    rwa [withPart_of_isScalar hxscalar, withPart_of_isScalar hyscalar]

/-- Equal edits of one item of equal arrays are both in range and leave equal arrays, or are
both out of range. -/
theorem rel_atItem? {e f : Edit} (hef : e.Alike f) {xs ys : List Json}
    (hxy : (array xs).Alike (array ys)) (i : Nat) :
    Option.Rel (fun a b => (array a).Alike (array b)) (e.atItem? xs i) (f.atItem? ys i) := by
  have hlength := length_eq_of_alike hxy
  cases hef with
  | @add v w h =>
    rw [atItem?, atItem?, Items.insert?, Items.insert?, hlength]
    by_cases hi : i ≤ ys.length
    · simpa [hi] using alike_insertIdx hxy h i
    · simp [hi]
  | @replace v w h =>
    rw [atItem?, atItem?, Items.replace?, Items.replace?, hlength]
    by_cases hi : i < ys.length
    · simpa [hi] using alike_set hxy h i
    · simp [hi]
  | remove =>
    rw [atItem?, atItem?, Items.remove?, Items.remove?, hlength]
    by_cases hi : i < ys.length
    · simpa [hi] using alike_eraseIdx hxy i
    · simp [hi]

/-- An edit of a part of a scalar fails for a reason that its kind and the step decide. -/
theorem agree_apply_scalar (e f : Edit) {x y : Json} (hkind : x.kind = y.kind)
    (hx : x.isScalar = true) (hy : y.isScalar = true) (step : Step) :
    Agree Json.Alike (e.apply x [step]) (f.apply y [step]) := by
  have hpastEnd : ∀ (edit : Edit) {node : Json}, node.isScalar = true →
      edit.apply node [.pastEnd] = .error (.pastEnd [.pastEnd]) := fun edit node hnode =>
    apply_of_lastStep (.pastEnd fun items _ harray => by simp [harray, isScalar] at hnode)
  by_cases hstep : step = .pastEnd
  · rw [hstep, hpastEnd e hx, hpastEnd f hy]
    exact .error _
  · rw [apply_of_lastStep (.scalar hx hstep), apply_of_lastStep (.scalar hy hstep), hkind]
    exact .error _

/-- Equal edits of one part of equal values agree. -/
theorem agree_apply_singleton {e f : Edit} (hef : e.Alike f) {x y : Json} (hxy : x.Alike y)
    (step : Step) : Agree Json.Alike (e.apply x [step]) (f.apply y [step]) := by
  induction x, y, kind_eq_of_same hxy.same using kind_cases with
  | object ms ns =>
    rw [apply, apply]
    cases hname : step.asKey? with
    | none =>
      simp only [atStep, hname]
      exact .error _
    | some name =>
      simp only [atStep, hname, atMember_eq_assign]
      exact .ok (alike_assign hxy name hef.rel_value?)
  | array xs ys =>
    rw [apply, apply]
    cases step with
    | key name => exact .error _
    | pastEnd =>
      cases hef with
      | add h => exact .ok (alike_concat hxy h)
      | replace h => exact .error _
      | remove => exact .error _
    | index i =>
      simp only [atStep, length_eq_of_alike hxy]
      obtain ⟨hleft, hright⟩ | ⟨a, b, hleft, hright, hab⟩ := rel_cases (rel_atItem? hef hxy i)
      · rw [hleft, hright]
        exact .error _
      · rw [hleft, hright]
        exact .ok hab
  | scalar x y hkind hxscalar hyscalar => exact agree_apply_scalar e f hkind hxscalar hyscalar step

/-- Equal edits of equal documents agree. -/
theorem agree_apply {e f : Edit} (hef : e.Alike f) {x y : Json} (hxy : x.Alike y) (p : Pointer) :
    Agree Json.Alike (e.apply x p) (f.apply y p) := by
  induction p generalizing x y with
  | nil =>
    cases hef with
    | add h | replace h => exact .ok h
    | remove => exact .ok (alike_self (by decide))
  | cons step rest ih =>
    by_cases hrest : rest = []
    · subst hrest
      exact agree_apply_singleton hef hxy step
    · obtain ⟨hleft, hright⟩ | ⟨child, other, hleft, hright, hparts⟩ :=
        rel_cases (rel_child? hxy step)
      · have hdead : x.deadEnd [step] step = y.deadEnd [step] step := by
          cases step <;> simp [deadEnd, kind_eq_of_same hxy.same, isScalar_eq_of_same hxy.same]
        rw [apply_cons_of_child?_eq_none e hleft hrest, hdead,
          apply_cons_of_child?_eq_none f hright hrest]
        exact .error _
      · rw [apply_cons e hleft hrest, apply_cons f hright hrest]
        obtain ⟨a, b, ha, hb, hab⟩ | ⟨err, ha, hb⟩ := (ih hparts).ok_or_error
        · rw [ha, hb]
          exact .ok (alike_withPart hxy hab step)
        · rw [ha, hb]
          exact .error _

/-- A document in which a place was given equal values is one document, up to the order of
members. -/
theorem alike_of_replace {doc a b v w : Json} {p : Pointer} (hdoc : doc.DistinctNames)
    (hvw : v.Alike w) (ha : doc.replace p v = .ok a) (hb : doc.replace p w = .ok b) :
    a.Alike b := by
  have hleft : (replace v).apply doc p = .ok a := ha
  have hright : (replace w).apply doc p = .ok b := hb
  have hagree := agree_apply (.replace hvw) (alike_self hdoc) p
  rw [hleft, hright] at hagree
  exact hagree.of_ok

end Edit

namespace Json

/-! ## Copies and moves -/

variable {x y : Json}

theorem agree_copy (hxy : x.Alike y) (source target : Pointer) :
    Agree Alike (x.copy source target) (y.copy source target) := by
  rw [copy, copy]
  obtain ⟨hleft, hright⟩ | ⟨v, w, hleft, hright, hvw⟩ := rel_cases (rel_select hxy source)
  · rw [hleft, hright]
    exact .ok hxy
  · rw [hleft, hright]
    exact Edit.agree_apply (.add hvw) hxy target

theorem agree_move (hxy : x.Alike y) (source target : Pointer) :
    Agree Alike (x.move source target) (y.move source target) := by
  rw [move, move]
  obtain ⟨hleft, hright⟩ | ⟨v, w, hleft, hright, hvw⟩ := rel_cases (rel_select hxy source)
  · rw [hleft, hright]
    exact .ok hxy
  · simp only [hleft, hright]
    split
    · exact .ok hxy
    · split
      · exact .error _
      · have hremove := Edit.agree_apply .remove hxy source
        obtain ⟨a, b, ha, hb, hab⟩ | ⟨e, ha, hb⟩ := hremove.ok_or_error
        · simp only [remove, ha, hb]
          exact Edit.agree_apply (.add hvw) hab target
        · simp only [remove, ha, hb]
          exact .error e

end Json

end JsonEdit
