import JsonEdit.Proofs.Pointer.Distinct

/-!
# Independent edits commute

Two edits at pointers that part at an object by two names, or at an array above both last
steps by two indexes, do not see each other.  This module proves that they can be made in
either order, and that an edit which fails fails alike after the other one.

* `Json.Independent` says where two pointers part, and `Edit.CreatesMember` names the one case
  in which the order of two edits can be seen: both make a new member of one object, and the
  first one made stays in front.
* One value.  `commute_at` is the law where the pointers part.  By `apply_object` and
  `apply_array` each edit depends on one part, and the other edit leaves that part alone.
* Whole documents.  `edits_commute` puts the value in its place.
-/

namespace JsonEdit

/-- Two pointers part at a value: at an object by steps with two names, or at an array by two
indexes, with further steps behind both. -/
inductive Json.Independent : Json → Pointer → Pointer → Prop where
  | member {members : List (String × Json)} {s t : Step} {a b : String} {p q : Pointer}
      (hs : s.asKey? = some a) (ht : t.asKey? = some b) (hne : a ≠ b) :
      Independent (.object members) (s :: p) (t :: q)
  | item {items : List Json} {i j : Nat} {p q : Pointer} (hne : i ≠ j) (hp : p ≠ [])
      (hq : q ≠ []) : Independent (.array items) (.index i :: p) (.index j :: q)

theorem Json.Independent.symm {node : Json} {p q : Pointer} (h : Independent node p q) :
    Independent node q p := by
  cases h with
  | member hs ht hne => exact .member ht hs hne.symm
  | item hne hp hq => exact .item hne.symm hq hp

namespace Edit

open Json

/-- An edit of a value makes a new member of it. -/
def CreatesMember (edit : Edit) (node : Json) (p : Pointer) : Prop :=
  edit ≠ remove ∧ ∃ members step name, node = object members ∧ p = [step] ∧
    step.asKey? = some name ∧ Members.get? members name = none

/-! ## One value -/

/-- An edit gives a value to a name that had none only if it creates the member. -/
theorem createsMember_of_onMember {edit : Edit} {members : List (String × Json)} {step : Step}
    {name : String} (hname : step.asKey? = some name) {rest : Pointer} {value : Json}
    (hold : Members.get? members name = none)
    (h : edit.onMember step rest none = .ok (some value)) :
    edit.CreatesMember (object members) (step :: rest) := by
  rw [onMember] at h
  split at h
  next hrest =>
    subst hrest
    refine ⟨?_, members, step, name, rfl, rfl, hname, hold⟩
    rintro rfl
    simp [value?] at h
  next => simp [onPart, Except.map] at h

theorem apply_error_of_independent {node out : Json} {p q : Pointer} {e f : Edit}
    {err : Pointer.Error} (hpq : Independent node p q) (he : e.apply node p = .error err)
    (hf : f.apply node q = .ok out) : e.apply out p = .error err := by
  cases hpq with
  | member hs ht hne =>
    rw [apply_object ht] at hf
    obtain ⟨y, -, rfl⟩ := map_eq_ok_iff.mp hf
    rw [apply_object hs] at he ⊢
    rw [Members.get?_assign_of_ne hne.symm]
    exact map_eq_error_iff.mpr (map_eq_error_iff.mp he)
  | item hne hp hq =>
    rw [apply_array f _ hq] at hf
    obtain ⟨y, -, rfl⟩ := map_eq_ok_iff.mp hf
    rw [apply_array e _ hp] at he ⊢
    rw [List.getElem?_set_ne hne.symm]
    exact map_eq_error_iff.mpr (map_eq_error_iff.mp he)

/-- Edits of two members assign what each of them computes alone, in the order in which they
are made. -/
theorem exists_assign_of_apply {members : List (String × Json)} {s t : Step} {n m : String}
    (hs : s.asKey? = some n) (ht : t.asKey? = some m) (hne : n ≠ m) {p q : Pointer} {e f : Edit}
    {a b : Json} (he : e.apply (object members) (s :: p) = .ok a)
    (hf : f.apply (object members) (t :: q) = .ok b) :
    ∃ x y, e.onMember s p (Members.get? members n) = .ok x ∧
      f.onMember t q (Members.get? members m) = .ok y ∧
      f.apply a (t :: q) = .ok (object (Members.assign (Members.assign members n x) m y)) ∧
      e.apply b (s :: p) = .ok (object (Members.assign (Members.assign members m y) n x)) := by
  rw [apply_object hs] at he
  rw [apply_object ht] at hf
  obtain ⟨x, hx, rfl⟩ := map_eq_ok_iff.mp he
  obtain ⟨y, hy, rfl⟩ := map_eq_ok_iff.mp hf
  refine ⟨x, y, hx, hy, ?_, ?_⟩
  · rw [apply_object ht, Members.get?_assign_of_ne hne, hy]
    rfl
  · rw [apply_object hs, Members.get?_assign_of_ne hne.symm, hx]
    rfl

/-- Edits below two items leave one array, in either order. -/
theorem exists_set_of_apply {items : List Json} {i j : Nat} (hne : i ≠ j) {p q : Pointer}
    (hp : p ≠ []) (hq : q ≠ []) {e f : Edit} {a b : Json}
    (he : e.apply (array items) (.index i :: p) = .ok a)
    (hf : f.apply (array items) (.index j :: q) = .ok b) :
    ∃ out, f.apply a (.index j :: q) = .ok out ∧ e.apply b (.index i :: p) = .ok out := by
  rw [apply_array e _ hp] at he
  rw [apply_array f _ hq] at hf
  obtain ⟨x, hx, rfl⟩ := map_eq_ok_iff.mp he
  obtain ⟨y, hy, rfl⟩ := map_eq_ok_iff.mp hf
  refine ⟨array ((items.set i x).set j y), ?_, ?_⟩
  · rw [apply_array f _ hq, List.getElem?_set_ne hne, hy]
    rfl
  · rw [apply_array e _ hp, List.getElem?_set_ne hne.symm, hx, List.set_comm _ _ hne]
    rfl

/-- Edits that part at a value can be made in either order, with equal results, and with
identical ones unless both create a member. -/
theorem commute_at {node a b : Json} {p q : Pointer} {e f : Edit} (hpq : Independent node p q)
    (he : e.apply node p = .ok a) (hf : f.apply node q = .ok b) :
    ∃ ab ba, f.apply a q = .ok ab ∧ e.apply b p = .ok ba ∧
      (node.DistinctNames → e.DistinctNames → f.DistinctNames → ab.Alike ba) ∧
      (¬ (e.CreatesMember node p ∧ f.CreatesMember node q) → ab = ba) := by
  cases hpq with
  | @member members s t n m p q hs ht hne =>
    obtain ⟨x, y, hx, hy, hab, hba⟩ := exists_assign_of_apply hs ht hne he hf
    refine ⟨_, _, hab, hba, ?_, ?_⟩
    · intro hnode hedit hother
      have hright := ((Document.edited ⟨_, hnode⟩ hother hf).edited hedit hba).2
      have hnodup := Document.nodup_keys ⟨_, hnode⟩ (p := []) rfl
      exact alike_of_get?_eq (Members.nodup_keys_assign (Members.nodup_keys_assign hnodup n x) m y)
        hright (Members.get?_assign_assign hnodup hne x y)
    · intro hcreate
      rw [Members.assign_comm hne]
      by_contra! hold
      obtain ⟨hxsome, hysome, hn, hm⟩ := hold
      obtain ⟨v, rfl⟩ := Option.ne_none_iff_exists'.mp hxsome
      obtain ⟨w, rfl⟩ := Option.ne_none_iff_exists'.mp hysome
      rw [hn] at hx
      rw [hm] at hy
      exact hcreate ⟨createsMember_of_onMember hs hn hx, createsMember_of_onMember ht hm hy⟩
  | item hne hp hq =>
    obtain ⟨out, hab, hba⟩ := exists_set_of_apply hne hp hq he hf
    refine ⟨out, out, hab, hba, fun hnode hedit hother => ?_, fun _ => rfl⟩
    exact Json.alike_self ((Document.edited ⟨_, hnode⟩ hedit he).edited hother hab).2

/-! ## Whole documents -/

theorem ne_nil_of_independent {node : Json} {p q : Pointer} (h : Independent node p q) :
    p ≠ [] ∧ q ≠ [] := by
  cases h <;> simp

/-- An edit that fails fails alike after an independent edit. -/
theorem apply_error_of_edit {doc node out : Json} {c p q : Pointer} {e f : Edit}
    {err : Pointer.Error} (hnode : doc.select c = some node) (hpq : Independent node p q)
    (he : e.apply doc (c ++ p) = .error err) (hf : f.apply doc (c ++ q) = .ok out) :
    e.apply out (c ++ p) = .error err := by
  obtain ⟨hp, hq⟩ := ne_nil_of_independent hpq
  obtain ⟨b, hb, hout⟩ := exists_replace_of_apply_append hnode hq hf
  rw [apply_append e hnode hp] at he
  cases hinner : e.apply node p with
  | ok a =>
    obtain ⟨out', hout'⟩ := exists_replace_eq_ok hnode a
    simp [hinner, hout'] at he
  | error inner =>
    rw [apply_of_replace e hnode hout hp, apply_error_of_independent hpq hinner hb]
    simpa [hinner] using he

/-- Two edits at pointers that part at the value that `c` leads to can be made in either
order.  The documents are equal, and identical unless both edits make a new member of that
value.  An edit that fails on the document fails alike after the other edit. -/
theorem edits_commute {doc node : Json} {c p q : Pointer} (hnode : doc.select c = some node)
    (hpq : Independent node p q) (e f : Edit) :
    (∀ d₁ d₂, e.apply doc (c ++ p) = .ok d₁ → f.apply doc (c ++ q) = .ok d₂ →
        ∃ d₁₂ d₂₁, f.apply d₁ (c ++ q) = .ok d₁₂ ∧ e.apply d₂ (c ++ p) = .ok d₂₁ ∧
          (doc.DistinctNames → e.DistinctNames → f.DistinctNames → d₁₂.Same d₂₁) ∧
          (¬ (e.CreatesMember node p ∧ f.CreatesMember node q) → d₁₂ = d₂₁)) ∧
      (∀ d₂ err, e.apply doc (c ++ p) = .error err → f.apply doc (c ++ q) = .ok d₂ →
        e.apply d₂ (c ++ p) = .error err) ∧
      (∀ d₁ err, f.apply doc (c ++ q) = .error err → e.apply doc (c ++ p) = .ok d₁ →
        f.apply d₁ (c ++ q) = .error err) := by
  refine ⟨?_, fun d₂ err => apply_error_of_edit hnode hpq,
    fun d₁ err => apply_error_of_edit hnode hpq.symm⟩
  intro d₁ d₂ he hf
  obtain ⟨hp, hq⟩ := ne_nil_of_independent hpq
  obtain ⟨a, ha, hd₁⟩ := exists_replace_of_apply_append hnode hp he
  obtain ⟨b, hb, hd₂⟩ := exists_replace_of_apply_append hnode hq hf
  obtain ⟨ab, ba, hab, hba, hsame, heq⟩ := commute_at hpq ha hb
  obtain ⟨d₁₂, hd₁₂⟩ := exists_replace_eq_ok hnode ab
  obtain ⟨d₂₁, hd₂₁⟩ := exists_replace_eq_ok hnode ba
  refine ⟨d₁₂, d₂₁, ?_, ?_, ?_, ?_⟩
  · rw [apply_of_replace f hnode hd₁ hq, hab]
    exact hd₁₂
  · rw [apply_of_replace e hnode hd₂ hp, hba]
    exact hd₂₁
  · intro hdoc hedit hother
    exact (alike_of_replace hdoc (hsame (hdoc.select hnode) hedit hother) hd₁₂ hd₂₁).same
  · intro hcreate
    rw [heq hcreate] at hd₁₂
    simpa using hd₁₂.symm.trans hd₂₁

/-- A member of the first item goes and the second item gets a new one, in either order. -/
theorem edits_commute_two_items :
    (object [("list", array [object [("n", null)], object []])]).select [.key "list"] =
        some (array [object [("n", null)], object []]) ∧
      ∃ out,
        (add (bool true)).apply (object [("list", array [object [], object []])])
            ([.key "list"] ++ [.index 1, .key "m"]) = .ok out ∧
        remove.apply
            (object [("list", array [object [("n", null)], object [("m", bool true)]])])
            ([.key "list"] ++ [.index 0, .key "n"]) = .ok out := by
  have hnode : (object [("list", array [object [("n", null)], object []])]).select [.key "list"] =
      some (array [object [("n", null)], object []]) := rfl
  have hpq : Independent (array [object [("n", null)], object []])
      [.index 0, .key "n"] [.index 1, .key "m"] := .item (by decide) (by simp) (by simp)
  obtain ⟨d₁₂, d₂₁, h₁₂, h₂₁, -, heq⟩ :=
    (edits_commute hnode hpq remove (add (bool true))).1 _ _ rfl rfl
  obtain rfl : d₁₂ = d₂₁ := heq fun h => h.1.1 rfl
  exact ⟨hnode, d₁₂, h₁₂, h₂₁⟩

/-- Two edits that create members of one object leave them in the order of the edits. -/
example :
    (do (← (object []).add [.key "a"] null).add [.key "b"] null : Except Pointer.Error Json) ≠
      (do (← (object []).add [.key "b"] null).add [.key "a"] null) := by
  decide

end Edit

end JsonEdit
