import JsonEdit.Proofs.Json.Members
import JsonEdit.Proofs.Json.Shape
import Mathlib.Algebra.BigOperators.Group.Multiset.Basic
import Mathlib.Data.List.Perm.Basic
import Mathlib.Tactic.Abel

/-!
# The scalars of a value

A value without its containers is the multiset of its scalars: how often each null, truth
value, number and text stands somewhere inside it.  An edit rearranges containers, so what it
does to this multiset is a matter of sums.

There are three groups.

* Sums.  The scalars of a container are those of its parts.
* Changes.  Each change of items or members is an equation between what was there, what comes
  in and what goes out.  None of them needs distinct names: the first member with a name is
  changed, and the others are counted as well.
* Membership.  What holds everywhere in a value holds of its scalars, and a property of
  scalars holds everywhere if it holds of them.
-/

namespace JsonEdit

namespace Json

/-! ## Sums -/

mutual

/-- The scalars inside a value, each as often as it is there. -/
def scalars : Json → Multiset Json
  | array items => scalarsItems items
  | object members => scalarsMembers members
  | scalar => {scalar}

/-- The scalars inside the items. -/
def scalarsItems : List Json → Multiset Json
  | [] => 0
  | x :: xs => scalars x + scalarsItems xs

/-- The scalars inside the values of the members. -/
def scalarsMembers : List (String × Json) → Multiset Json
  | [] => 0
  | (_, x) :: ms => scalars x + scalarsMembers ms

end

/-- The scalars of what may not be there. -/
def scalars? (x : Option Json) : Multiset Json := x.elim 0 scalars

@[simp]
theorem scalars?_none : scalars? none = 0 := rfl

@[simp]
theorem scalars?_some (x : Json) : scalars? (some x) = x.scalars := rfl

@[simp]
theorem scalars_array (items : List Json) : (array items).scalars = scalarsItems items := rfl

@[simp]
theorem scalars_object (members : List (String × Json)) :
    (object members).scalars = scalarsMembers members := rfl

theorem scalars_of_isScalar {x : Json} (hx : x.isScalar = true) : x.scalars = {x} := by
  cases x with
  | array items | object members => simp [isScalar] at hx
  | _ => rfl

theorem scalarsItems_eq_sum (items : List Json) : scalarsItems items = (items.map scalars).sum := by
  induction items with
  | nil => rfl
  | cons x xs ih => rw [scalarsItems, ih, List.map_cons, List.sum_cons]

/-- The order of items does not matter. -/
theorem scalarsItems_perm {xs ys : List Json} (h : xs.Perm ys) :
    scalarsItems xs = scalarsItems ys := by
  rw [scalarsItems_eq_sum, scalarsItems_eq_sum]
  exact (h.map scalars).sum_eq

/-! ## Changes -/

theorem scalarsItems_insertIdx {items : List Json} {i : Nat} (hi : i ≤ items.length)
    (value : Json) :
    scalarsItems (items.insertIdx i value) = scalarsItems items + value.scalars := by
  rw [scalarsItems_perm (List.perm_insertIdx value items hi), scalarsItems, add_comm]

theorem scalarsItems_eraseIdx {items : List Json} {i : Nat} (hi : i < items.length) :
    scalarsItems (items.eraseIdx i) + items[i].scalars = scalarsItems items := by
  rw [← scalarsItems_perm (List.getElem_cons_eraseIdx_perm hi), scalarsItems, add_comm]

theorem scalarsItems_set {items : List Json} {i : Nat} (hi : i < items.length) (value : Json) :
    scalarsItems (items.set i value) + items[i].scalars = scalarsItems items + value.scalars := by
  rw [scalarsItems_perm (List.set_perm_cons_eraseIdx hi value), ← scalarsItems_eraseIdx hi,
    scalarsItems, add_comm value.scalars, add_right_comm]

/-- A member that is given a value, or taken away, loses what it had. -/
theorem scalarsMembers_assign (members : List (String × Json)) (name : String)
    (value : Option Json) :
    scalarsMembers (Members.assign members name value) + scalars? (Members.get? members name) =
      scalarsMembers members + scalars? value := by
  induction members with
  | nil =>
    cases value <;> simp [Members.assign, Members.put, Members.erase, Members.get?, scalarsMembers]
  | cons entry rest ih =>
    rcases entry with ⟨key, old⟩
    by_cases hkey : key = name
    · cases value with
      | none =>
        simp only [Members.assign, Members.erase, Members.get?, if_pos hkey, scalarsMembers,
          scalars?_some, scalars?_none]
        abel
      | some value =>
        simp only [Members.assign, Members.put, Members.get?, if_pos hkey, scalarsMembers,
          scalars?_some]
        abel
    · have hrest : Members.assign ((key, old) :: rest) name value =
          (key, old) :: Members.assign rest name value := by
        cases value <;> simp [Members.assign, Members.put, Members.erase, hkey]
      rw [hrest, scalarsMembers, scalarsMembers, Members.get?, if_neg hkey, add_assoc, ih,
        add_assoc]

theorem scalarsMembers_put (members : List (String × Json)) (name : String) (value : Json) :
    scalarsMembers (Members.put members name value) + scalars? (Members.get? members name) =
      scalarsMembers members + value.scalars :=
  scalarsMembers_assign members name (some value)

theorem scalarsMembers_erase (members : List (String × Json)) (name : String) :
    scalarsMembers (Members.erase members name) + scalars? (Members.get? members name) =
      scalarsMembers members := by
  have h := scalarsMembers_assign members name none
  rwa [scalars?_none, add_zero] at h

/-! ## Membership -/

/-- A scalar of an object is one of the value of some member. -/
theorem mem_scalarsMembers_iff {members : List (String × Json)} {y : Json} :
    y ∈ scalarsMembers members ↔ ∃ name x, (name, x) ∈ members ∧ y ∈ x.scalars := by
  induction members with
  | nil => simp [scalarsMembers]
  | cons entry rest ih =>
    rcases entry with ⟨key, x⟩
    rw [scalarsMembers, Multiset.mem_add, ih]
    constructor
    · rintro (hx | ⟨name, z, hmem, hz⟩)
      · exact ⟨key, x, List.mem_cons_self, hx⟩
      · exact ⟨name, z, List.mem_cons_of_mem _ hmem, hz⟩
    · rintro ⟨name, z, hmem, hz⟩
      rcases List.mem_cons.mp hmem with heq | hmem
      · cases heq
        exact .inl hz
      · exact .inr ⟨name, z, hmem, hz⟩

theorem mem_scalarsItems_iff {items : List Json} {y : Json} :
    y ∈ scalarsItems items ↔ ∃ x ∈ items, y ∈ x.scalars := by
  induction items with
  | nil => simp [scalarsItems]
  | cons x xs ih => simp [scalarsItems, ih]

/-- What holds everywhere in a value holds of its scalars. -/
theorem Everywhere.of_mem_scalars {holds : Json → Prop} {x y : Json} (hx : Everywhere holds x)
    (hy : y ∈ x.scalars) : holds y := by
  induction x using induction_parts with
  | scalar x hscalar =>
    rw [scalars_of_isScalar hscalar, Multiset.mem_singleton] at hy
    rw [hy]
    cases x with
    | array items | object members => simp [isScalar] at hscalar
    | _ => exact hx
  | array items ih =>
    obtain ⟨x, hmem, hyx⟩ := mem_scalarsItems_iff.mp hy
    exact ih x hmem (everywhereItems_iff.mp hx.2 x hmem) hyx
  | object members ih =>
    obtain ⟨name, x, hmem, hyx⟩ := mem_scalarsMembers_iff.mp hy
    exact ih name x hmem (everywhereMembers_iff.mp hx.2 name x hmem) hyx

/-- What holds of every container, and of the scalars of a value, holds everywhere in it. -/
theorem everywhere_of_scalars {holds : Json → Prop}
    (hcontainer : ∀ x, x.isScalar = false → holds x) {x : Json}
    (hx : ∀ y ∈ x.scalars, holds y) : Everywhere holds x := by
  induction x using induction_parts with
  | scalar x hscalar =>
    have hself : holds x := hx x (by rw [scalars_of_isScalar hscalar, Multiset.mem_singleton])
    cases x with
    | array items | object members => simp [isScalar] at hscalar
    | _ => exact hself
  | array items ih =>
    refine ⟨hcontainer _ rfl, everywhereItems_iff.mpr ?_⟩
    intro x hmem
    exact ih x hmem fun y hy => hx y (mem_scalarsItems_iff.mpr ⟨x, hmem, hy⟩)
  | object members ih =>
    refine ⟨hcontainer _ rfl, everywhereMembers_iff.mpr ?_⟩
    intro name x hmem
    exact ih name x hmem fun y hy => hx y (mem_scalarsMembers_iff.mpr ⟨name, x, hmem, hy⟩)

/-- That every number is an integer of 64 bits can be seen from the scalars. -/
theorem integers64_iff {x : Json} :
    x.Integers64 ↔ ∀ n, number n ∈ x.scalars → n.IsInteger64 := by
  constructor
  · intro h n hn
    exact Everywhere.of_mem_scalars h hn n rfl
  · intro h
    refine everywhere_of_scalars ?_ ?_
    · rintro x hx n rfl
      cases hx
    · rintro y hy n rfl
      exact h n hy

end Json

end JsonEdit
