import JsonEdit.Json.Equality
import JsonEdit.Proofs.Json.Members
import JsonEdit.Proofs.Json.Shape
import Mathlib.Data.List.Perm.Subperm

/-!
# Equality without the order of members

`Json.same` compares two objects from the left: they have the same number of members, and
each member on the left has an equal one of its name on the right.  Where names are
distinct, this is a comparison of lookups, which has no left and no right.  This module
proves that, and from it that equality of documents is an equivalence.

There are four groups.

* Parts.  `same_array_iff` and `same_object_iff` say that two containers are equal exactly
  if every lookup of a part has equal results in both.  For objects this is where the names
  are counted: distinct names on the left that all occur on the right are all of them.
* Kinds.  Equal values have one kind, and `kind_cases` splits a proof about them by it.
* The equivalence, by induction on the parts of a value.
* Equal documents.  `Alike` is equality of two values together with the proofs that both are
  documents.  It can be read off the parts of a value with no further condition, and it turns
  around and composes with none, so a lemma that takes and gives it has nothing else to ask.
-/

namespace JsonEdit

namespace Number

theorem same_self (n : Number) : n.same n = true := by
  cases n <;> simp [same, Double.sameValue]

theorem same_symm {m n : Number} (h : m.same n = true) : n.same m = true := by
  cases m <;> cases n <;> simp_all [same, Double.sameValue]; grind

theorem same_trans {l m n : Number} (hlm : l.same m = true) (hmn : m.same n = true) :
    l.same n = true := by
  cases l <;> cases m <;> cases n <;> simp_all [same, Double.sameValue]; grind

end Number

namespace Json

/-! ## What two lookups find -/

section Lift

variable {α : Type} {R S : α → α → Prop}

/-- Related lookups both find nothing, or they find related values. -/
theorem rel_cases {a b : Option α} (h : Option.Rel R a b) :
    (a = none ∧ b = none) ∨ ∃ x y, a = some x ∧ b = some y ∧ R x y := by
  cases h with
  | none => exact .inl ⟨rfl, rfl⟩
  | some hxy => exact .inr ⟨_, _, rfl, rfl, hxy⟩

/-- A relation between what two lookups find is turned around where each pair is. -/
theorem rel_flip {a b : Option α} (h : Option.Rel R a b)
    (hstep : ∀ x y, a = some x → b = some y → R x y → S y x) : Option.Rel S b a := by
  cases h with
  | none => exact .none
  | some hxy => exact .some (hstep _ _ rfl rfl hxy)

/-- A relation between what two lookups find follows from another one where it does for each
pair. -/
theorem rel_imp {a b : Option α} (h : Option.Rel R a b)
    (hstep : ∀ x y, a = some x → b = some y → R x y → S x y) : Option.Rel S a b := by
  cases h with
  | none => exact .none
  | some hxy => exact .some (hstep _ _ rfl rfl hxy)

/-- Two relations between what lookups find are composed where each chain is. -/
theorem rel_comp {a b c : Option α} (hab : Option.Rel R a b) (hbc : Option.Rel R b c)
    (hstep : ∀ x y z, a = some x → b = some y → c = some z → R x y → R y z → S x z) :
    Option.Rel S a c := by
  cases hab with
  | none =>
    cases hbc
    exact .none
  | some hxy =>
    cases hbc with
    | some hyz => exact .some (hstep _ _ _ rfl rfl rfl hxy hyz)

end Lift

/-- Two values are equal, the order of members left aside. -/
abbrev Same (x y : Json) : Prop := x.same y = true

/-! ## Parts -/

theorem sameItems_iff {xs ys : List Json} :
    sameItems xs ys = true ↔ ∀ i : Nat, Option.Rel Same xs[i]? ys[i]? := by
  induction xs generalizing ys with
  | nil =>
    cases ys with
    | nil => simp [sameItems]
    | cons y ys =>
      simp only [sameItems, Bool.false_eq_true, false_iff]
      exact fun h => nomatch h 0
  | cons x xs ih =>
    cases ys with
    | nil =>
      simp only [sameItems, Bool.false_eq_true, false_iff]
      exact fun h => nomatch h 0
    | cons y ys =>
      rw [sameItems, Bool.and_eq_true, ih]
      constructor
      · intro h i
        cases i with
        | zero => exact .some h.1
        | succ i => exact h.2 i
      · intro h
        refine ⟨?_, fun i => h (i + 1)⟩
        cases h 0 with
        | some hhead => exact hhead

theorem sameMembers_iff {ms ns : Members Json} :
    sameMembers ms ns = true ↔
      ∀ name x, (name, x) ∈ ms → ∃ y, Members.get? ns name = some y ∧ x.Same y := by
  induction ms with
  | nil => simp [sameMembers]
  | cons entry ms ih =>
    obtain ⟨key, x⟩ := entry
    have hcons : sameMembers ((key, x) :: ms) ns = true ↔
        (∃ y, Members.get? ns key = some y ∧ x.Same y) ∧ sameMembers ms ns = true := by
      rw [sameMembers, Bool.and_eq_true]
      cases Members.get? ns key <;> simp
    rw [hcons, ih]
    constructor
    · intro h name y hmem
      obtain ⟨rfl, rfl⟩ | hmem := by simpa using hmem
      · exact h.1
      · exact h.2 name y hmem
    · exact fun h => ⟨h key x (by simp), fun name y hmem => h name y (by simp [hmem])⟩

/-- Arrays are equal exactly if equal items are found at every index. -/
theorem same_array_iff {xs ys : List Json} :
    (array xs).Same (array ys) ↔ ∀ i : Nat, Option.Rel Same xs[i]? ys[i]? := by
  rw [Same, same, sameItems_iff]

/-- Distinct names that all occur in a list of no more names are all the names of the list. -/
theorem subset_of_length_le {names others : List String} (hnames : names.Nodup)
    (hsubset : names ⊆ others) (hlength : others.length ≤ names.length) : others ⊆ names :=
  ((List.subperm_of_subset hnames hsubset).perm_of_length_le hlength).symm.subset

/-- Objects with distinct names are equal exactly if equal values are found at every name. -/
theorem same_object_iff {ms ns : Members Json} (hms : (Members.keys ms).Nodup)
    (hns : (Members.keys ns).Nodup) :
    (object ms).Same (object ns) ↔
      ∀ name, Option.Rel Same (Members.get? ms name) (Members.get? ns name) := by
  rw [Same, same, Bool.and_eq_true, beq_iff_eq, sameMembers_iff]
  constructor
  · intro h name
    obtain ⟨hlength, hparts⟩ := h
    cases hleft : Members.get? ms name with
    | some x =>
      obtain ⟨y, hright, hxy⟩ := hparts name x (Members.mem_of_get?_eq_some hleft)
      rw [hright]
      exact .some hxy
    | none =>
      have hsubset : Members.keys ms ⊆ Members.keys ns := by
        intro key hkey
        obtain ⟨⟨_, x⟩, hmem, rfl⟩ := List.mem_map.mp hkey
        obtain ⟨y, hright, -⟩ := hparts _ x hmem
        exact Members.mem_keys_of_get?_eq_some hright
      have hback : Members.keys ns ⊆ Members.keys ms :=
        subset_of_length_le hms hsubset (by simp [Members.keys, hlength])
      have hright : Members.get? ns name = none :=
        Members.get?_eq_none_iff.mpr fun hmem => Members.get?_eq_none_iff.mp hleft (hback hmem)
      rw [hright]
      exact .none
  · intro hparts
    have hkeys : ∀ name, name ∈ Members.keys ms ↔ name ∈ Members.keys ns := by
      intro name
      have hnone : Members.get? ms name = none ↔ Members.get? ns name = none := by
        obtain ⟨hleft, hright⟩ | ⟨x, y, hleft, hright, -⟩ := rel_cases (hparts name) <;>
          simp [hleft, hright]
      rw [Members.get?_eq_none_iff, Members.get?_eq_none_iff] at hnone
      exact not_iff_not.mp hnone
    have hperm := (List.perm_ext_iff_of_nodup hms hns).mpr hkeys
    refine ⟨by simpa [Members.keys] using hperm.length_eq, fun name x hmem => ?_⟩
    have hfound : Members.get? ms name = some x := (Members.get?_eq_some_iff hms).mpr hmem
    obtain ⟨hleft, -⟩ | ⟨x', y, hleft, hright, hxy⟩ := rel_cases (hparts name)
    · simp [hleft] at hfound
    · obtain rfl : x' = x := by simpa [hleft] using hfound
      exact ⟨y, hright, hxy⟩

/-! ## Kinds -/

theorem kind_eq_of_same {x y : Json} (h : x.Same y) : x.kind = y.kind := by
  cases x <;> cases y <;> first | rfl | simp [Same, same] at h

/-- Two values of one kind are two objects, two arrays or two scalars. -/
@[elab_as_elim]
theorem kind_cases {P : ∀ x y : Json, x.kind = y.kind → Prop}
    (object : ∀ ms ns, P (object ms) (object ns) rfl)
    (array : ∀ xs ys, P (array xs) (array ys) rfl)
    (scalar : ∀ x y h, x.isScalar = true → y.isScalar = true → P x y h)
    (x y : Json) (h : x.kind = y.kind) : P x y h := by
  cases x <;> cases y <;>
    first
      | exact object _ _
      | exact array _ _
      | exact scalar _ _ h rfl rfl
      | exact absurd h (by simp [kind])

/-! ## The equivalence -/

theorem same_self {x : Json} (hx : x.DistinctNames) : x.Same x := by
  induction x using induction_parts with
  | scalar x hscalar =>
    cases x with
    | array items | object members => simp [isScalar] at hscalar
    | number n => exact n.same_self
    | null | bool b | string s => simp [Same, same]
  | array items ih =>
    rw [distinctNames_array_iff] at hx
    refine same_array_iff.mpr fun i => ?_
    cases hitem : items[i]? with
    | none => exact .none
    | some x =>
      have hmem : x ∈ items := List.mem_of_getElem? hitem
      exact .some (ih x hmem (hx x hmem))
  | object members ih =>
    obtain ⟨hnodup, hparts⟩ := distinctNames_object_iff.mp hx
    refine (same_object_iff hnodup hnodup).mpr fun name => ?_
    cases hvalue : Members.get? members name with
    | none => exact .none
    | some x =>
      have hmem := Members.mem_of_get?_eq_some hvalue
      exact .some (ih name x hmem (hparts name x hmem))

theorem same_symm {x y : Json} (hx : x.DistinctNames) (hy : y.DistinctNames) (h : x.Same y) :
    y.Same x := by
  induction x using induction_parts generalizing y with
  | scalar x hscalar =>
    cases x with
    | array items | object members => simp [isScalar] at hscalar
    | number n =>
      cases y with
      | number m => exact Number.same_symm h
      | _ => simp [Same, same] at h
    | null | bool b | string s => cases y <;> simp_all [Same, same]
  | array items ih =>
    cases y with
    | array others =>
      rw [distinctNames_array_iff] at hx hy
      rw [same_array_iff] at h
      refine same_array_iff.mpr fun i => rel_flip (h i) fun x y hi hj hxy => ?_
      have hmem : x ∈ items := List.mem_of_getElem? hi
      exact ih x hmem (hx x hmem) (hy y (List.mem_of_getElem? hj)) hxy
    | _ => simp [Same, same] at h
  | object members ih =>
    cases y with
    | object others =>
      obtain ⟨hmembers, hx⟩ := distinctNames_object_iff.mp hx
      obtain ⟨hothers, hy⟩ := distinctNames_object_iff.mp hy
      rw [same_object_iff hmembers hothers] at h
      refine (same_object_iff hothers hmembers).mpr fun name =>
        rel_flip (h name) fun x y hleft hright hxy => ?_
      have hmem := Members.mem_of_get?_eq_some hleft
      exact ih name x hmem (hx name x hmem) (hy name y (Members.mem_of_get?_eq_some hright)) hxy
    | _ => simp [Same, same] at h

theorem same_trans {x y z : Json} (hx : x.DistinctNames) (hy : y.DistinctNames)
    (hz : z.DistinctNames) (hxy : x.Same y) (hyz : y.Same z) : x.Same z := by
  induction x using induction_parts generalizing y z with
  | scalar x hscalar =>
    cases x with
    | array items | object members => simp [isScalar] at hscalar
    | number n =>
      cases y with
      | number m =>
        cases z with
        | number l => exact Number.same_trans hxy hyz
        | _ => simp [Same, same] at hyz
      | _ => simp [Same, same] at hxy
    | null | bool b | string s => cases y <;> cases z <;> simp_all [Same, same]
  | array items ih =>
    have hykind := kind_eq_of_same hxy
    have hzkind := hykind.trans (kind_eq_of_same hyz)
    cases y with
    | array others =>
      cases z with
      | array third =>
        rw [distinctNames_array_iff] at hx hy hz
        rw [same_array_iff] at hxy hyz
        refine same_array_iff.mpr fun i =>
          rel_comp (hxy i) (hyz i) fun x y z hi hj hk hxy hyz => ?_
        have hmem : x ∈ items := List.mem_of_getElem? hi
        exact ih x hmem (hx x hmem) (hy y (List.mem_of_getElem? hj))
          (hz z (List.mem_of_getElem? hk)) hxy hyz
      | _ => simp [kind] at hzkind
    | _ => simp [kind] at hykind
  | object members ih =>
    have hykind := kind_eq_of_same hxy
    have hzkind := hykind.trans (kind_eq_of_same hyz)
    cases y with
    | object others =>
      cases z with
      | object third =>
        obtain ⟨hmembers, hx⟩ := distinctNames_object_iff.mp hx
        obtain ⟨hothers, hy⟩ := distinctNames_object_iff.mp hy
        obtain ⟨hthird, hz⟩ := distinctNames_object_iff.mp hz
        rw [same_object_iff hmembers hothers] at hxy
        rw [same_object_iff hothers hthird] at hyz
        refine (same_object_iff hmembers hthird).mpr fun name =>
          rel_comp (hxy name) (hyz name) fun x y z hleft hmiddle hright hxy hyz => ?_
        have hmem := Members.mem_of_get?_eq_some hleft
        exact ih name x hmem (hx name x hmem) (hy name y (Members.mem_of_get?_eq_some hmiddle))
          (hz name z (Members.mem_of_get?_eq_some hright)) hxy hyz
      | _ => simp [kind] at hzkind
    | _ => simp [kind] at hykind

/-- Equality up to the order of members is an equivalence of documents. -/
theorem equivalence_same : Equivalence fun x y : Document => x.1.Same y.1 where
  refl x := same_self x.2
  symm {x y} hxy := same_symm x.2 y.2 hxy
  trans {x y z} hxy hyz := same_trans x.2 y.2 z.2 hxy hyz

/-! ## Equal documents -/

/-- Two values are documents, and equal up to the order of members. -/
structure Alike (x y : Json) : Prop where
  left : x.DistinctNames
  right : y.DistinctNames
  same : x.Same y

theorem alike_self {x : Json} (h : x.DistinctNames) : x.Alike x := ⟨h, h, same_self h⟩

theorem Alike.symm {x y : Json} (h : x.Alike y) : y.Alike x :=
  ⟨h.right, h.left, same_symm h.left h.right h.same⟩

theorem Alike.trans {x y z : Json} (hxy : x.Alike y) (hyz : y.Alike z) : x.Alike z :=
  ⟨hxy.left, hyz.right, same_trans hxy.left hxy.right hyz.right hxy.same hyz.same⟩

/-- Where two lookups find equal documents, what the first one finds is a document. -/
theorem distinctNames_of_rel {a b : Option Json} (h : Option.Rel Alike a b) {x : Json}
    (hx : a = some x) : x.DistinctNames := by
  cases h with
  | none => cases hx
  | some hxy =>
    cases hx
    exact hxy.left

/-- Where two lookups find equal documents, so do they the other way around. -/
theorem rel_symm {a b : Option Json} (h : Option.Rel Alike a b) : Option.Rel Alike b a :=
  rel_flip h fun _ _ _ _ hxy => hxy.symm

theorem alike_array_iff {xs ys : List Json} :
    (array xs).Alike (array ys) ↔ ∀ i : Nat, Option.Rel Alike xs[i]? ys[i]? := by
  constructor
  · intro h i
    have hleft := distinctNames_array_iff.mp h.left
    have hright := distinctNames_array_iff.mp h.right
    refine rel_imp (same_array_iff.mp h.same i) fun x y hx hy hxy => ?_
    exact ⟨hleft x (List.mem_of_getElem? hx), hright y (List.mem_of_getElem? hy), hxy⟩
  · intro h
    refine ⟨distinctNames_array_iff.mpr ?_, distinctNames_array_iff.mpr ?_, same_array_iff.mpr ?_⟩
    · intro x hx
      obtain ⟨i, hi⟩ := List.mem_iff_getElem?.mp hx
      exact distinctNames_of_rel (h i) hi
    · intro y hy
      obtain ⟨i, hi⟩ := List.mem_iff_getElem?.mp hy
      exact distinctNames_of_rel (rel_symm (h i)) hi
    · intro i
      exact rel_imp (h i) fun x y _ _ hxy => hxy.same

theorem distinctNames_object_iff_get? {members : List (String × Json)} :
    (object members).DistinctNames ↔ (Members.keys members).Nodup ∧
      ∀ name x, Members.get? members name = some x → x.DistinctNames := by
  rw [distinctNames_object_iff]
  refine and_congr_right fun hnodup => ?_
  simp only [Members.get?_eq_some_iff hnodup]

theorem alike_object_iff {ms ns : List (String × Json)} :
    (object ms).Alike (object ns) ↔ (Members.keys ms).Nodup ∧ (Members.keys ns).Nodup ∧
      ∀ name, Option.Rel Alike (Members.get? ms name) (Members.get? ns name) := by
  constructor
  · intro h
    obtain ⟨hms, hleft⟩ := distinctNames_object_iff_get?.mp h.left
    obtain ⟨hns, hright⟩ := distinctNames_object_iff_get?.mp h.right
    refine ⟨hms, hns, fun name => ?_⟩
    refine rel_imp ((same_object_iff hms hns).mp h.same name) fun x y hx hy hxy => ?_
    exact ⟨hleft name x hx, hright name y hy, hxy⟩
  · intro h
    obtain ⟨hms, hns, h⟩ := h
    refine ⟨distinctNames_object_iff_get?.mpr ⟨hms, ?_⟩,
      distinctNames_object_iff_get?.mpr ⟨hns, ?_⟩, (same_object_iff hms hns).mpr ?_⟩
    · intro name x hx
      exact distinctNames_of_rel (h name) hx
    · intro name y hy
      exact distinctNames_of_rel (rel_symm (h name)) hy
    · intro name
      exact rel_imp (h name) fun x y _ _ hxy => hxy.same

/-- Objects in which every name is found with the same value are equal. -/
theorem alike_of_get?_eq {ms ns : List (String × Json)} (hms : (Members.keys ms).Nodup)
    (hns : (object ns).DistinctNames) (h : ∀ name, Members.get? ms name = Members.get? ns name) :
    (object ms).Alike (object ns) := by
  obtain ⟨hnodup, -, hparts⟩ := alike_object_iff.mp (alike_self hns)
  refine alike_object_iff.mpr ⟨hms, hnodup, fun name => ?_⟩
  rw [h name]
  exact hparts name

end Json

end JsonEdit
