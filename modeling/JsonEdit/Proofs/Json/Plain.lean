import JsonEdit.Json.Plain
import JsonEdit.Proofs.Json.Members
import JsonEdit.Proofs.Json.Shape
import Mathlib.Logic.Equiv.Defs

/-!
# Documents and their plain forms

A conversion puts the members of every object one after the other into a new one.  So no object
in what comes out of it has a name twice, whatever goes in, and where no object has a name twice
nothing is lost: the two conversions take each other back, the order of members included.

There are four groups.

* Distinct names of plain values, read off their parts as for values.
* What comes out.  `distinctNames_ofPlain` and `distinctNames_toPlain` ask for nothing.
* There and back.  `ofPlain_toPlain` and `toPlain_ofPlain` ask for distinct names.
* Documents.  `Document.plainEquiv` puts the four statements together.

Values and plain values have one shape, and each statement is an induction on it: one case for
the scalars, and one for lists of items and of members each.
-/

namespace JsonEdit

namespace PlainJson

/-! ## Distinct names of plain values -/

mutual

/-- No object in a plain value has a name twice. -/
def DistinctNames : PlainJson → Prop
  | .array items => DistinctItems items
  | .object members => (Members.keys members).Nodup ∧ DistinctMembers members
  | _ => True

/-- No object in any of the items has a name twice. -/
def DistinctItems : List PlainJson → Prop
  | [] => True
  | x :: xs => DistinctNames x ∧ DistinctItems xs

/-- No object in the value of any member has a name twice. -/
def DistinctMembers : List (String × PlainJson) → Prop
  | [] => True
  | (_, x) :: ms => DistinctNames x ∧ DistinctMembers ms

end

theorem distinctItems_iff {xs : List PlainJson} :
    DistinctItems xs ↔ ∀ x ∈ xs, x.DistinctNames := by
  induction xs with
  | nil => simp [DistinctItems]
  | cons x xs ih => rw [DistinctItems, ih, List.forall_mem_cons]

theorem distinctMembers_iff {ms : Members PlainJson} :
    DistinctMembers ms ↔ ∀ entry ∈ ms, entry.2.DistinctNames := by
  induction ms with
  | nil => simp [DistinctMembers]
  | cons entry ms ih => rw [DistinctMembers, ih, List.forall_mem_cons]

theorem distinctNames_object_iff {members : Members PlainJson} :
    (object members).DistinctNames ↔
      (Members.keys members).Nodup ∧ ∀ entry ∈ members, entry.2.DistinctNames := by
  rw [DistinctNames, distinctMembers_iff]

end PlainJson

namespace Json

/-! ## What comes out -/

theorem keys_toPlainMembers (members : List (String × Json)) :
    Members.keys (toPlainMembers members) = Members.keys members := by
  induction members with
  | nil => rfl
  | cons entry members ih =>
    show entry.1 :: Members.keys (toPlainMembers members) = entry.1 :: Members.keys members
    rw [ih]

theorem keys_ofPlainMembers (members : Members PlainJson) :
    Members.keys (ofPlainMembers members) = Members.keys members := by
  induction members with
  | nil => rfl
  | cons entry members ih =>
    show entry.1 :: Members.keys (ofPlainMembers members) = entry.1 :: Members.keys members
    rw [ih]

mutual

/-- What a plain value is converted to has distinct names. -/
theorem distinctNames_ofPlain : ∀ x : PlainJson, (ofPlain x).DistinctNames
  | .null | .bool _ | .number _ | .string _ => List.nodup_nil
  | .array items => distinctNames_array_iff.mpr (distinctNames_of_mem_ofPlainItems items)
  | .object members => distinctNames_object_iff.mpr ⟨Members.nodup_keys_ofList _,
      fun name _ hmem =>
        distinctNames_of_mem_ofPlainMembers members (name, _) (Members.mem_of_mem_ofList hmem)⟩

theorem distinctNames_of_mem_ofPlainItems :
    ∀ (xs : List PlainJson), ∀ y ∈ ofPlainItems xs, y.DistinctNames
  | [] => List.forall_mem_nil _
  | x :: xs => List.forall_mem_cons.mpr
      ⟨distinctNames_ofPlain x, distinctNames_of_mem_ofPlainItems xs⟩

theorem distinctNames_of_mem_ofPlainMembers :
    ∀ (ms : List (String × PlainJson)), ∀ entry ∈ ofPlainMembers ms, entry.2.DistinctNames
  | [] => List.forall_mem_nil _
  | (_, x) :: ms => List.forall_mem_cons.mpr
      ⟨distinctNames_ofPlain x, distinctNames_of_mem_ofPlainMembers ms⟩

end

mutual

/-- The plain form of a value has distinct names. -/
theorem distinctNames_toPlain : ∀ x : Json, x.toPlain.DistinctNames
  | null | bool _ | number _ | string _ => trivial
  | array items =>
    PlainJson.distinctItems_iff.mpr (distinctNames_of_mem_toPlainItems items)
  | object members => PlainJson.distinctNames_object_iff.mpr ⟨Members.nodup_keys_ofList _,
      fun entry hmem =>
        distinctNames_of_mem_toPlainMembers members entry (Members.mem_of_mem_ofList hmem)⟩

theorem distinctNames_of_mem_toPlainItems :
    ∀ (xs : List Json), ∀ y ∈ toPlainItems xs, y.DistinctNames
  | [] => List.forall_mem_nil _
  | x :: xs => List.forall_mem_cons.mpr
      ⟨distinctNames_toPlain x, distinctNames_of_mem_toPlainItems xs⟩

theorem distinctNames_of_mem_toPlainMembers :
    ∀ (ms : List (String × Json)), ∀ entry ∈ toPlainMembers ms, entry.2.DistinctNames
  | [] => List.forall_mem_nil _
  | (_, x) :: ms => List.forall_mem_cons.mpr
      ⟨distinctNames_toPlain x, distinctNames_of_mem_toPlainMembers ms⟩

end

/-! ## There and back -/

/-- The plain form of an object with distinct names has the same members in the same order. -/
theorem toPlain_object {members : List (String × Json)} (h : (Members.keys members).Nodup) :
    (object members).toPlain = .object (toPlainMembers members) := by
  rw [toPlain, Members.ofList_of_nodup ((keys_toPlainMembers members).symm ▸ h)]

/-- A plain object with distinct names is converted to the same members in the same order. -/
theorem ofPlain_object {members : Members PlainJson} (h : (Members.keys members).Nodup) :
    ofPlain (.object members) = object (ofPlainMembers members) := by
  rw [ofPlain, Members.ofList_of_nodup ((keys_ofPlainMembers members).symm ▸ h)]

mutual

/-- A value with distinct names comes back from its plain form. -/
theorem ofPlain_toPlain : ∀ {x : Json}, x.DistinctNames → ofPlain x.toPlain = x
  | null, _ | bool _, _ | number _, _ | string _, _ => rfl
  | array items, h => by rw [toPlain, ofPlain, ofPlainItems_toPlainItems h.2]
  | object members, h => by
    have hnodup : (Members.keys members).Nodup := h.1
    rw [toPlain_object hnodup, ofPlain_object (by rwa [keys_toPlainMembers]),
      ofPlainMembers_toPlainMembers h.2]

theorem ofPlainItems_toPlainItems : ∀ {xs : List Json},
    EverywhereItems (fun node => node.names.Nodup) xs → ofPlainItems (toPlainItems xs) = xs
  | [], _ => rfl
  | x :: xs, h => by
    rw [toPlainItems, ofPlainItems, ofPlain_toPlain h.1, ofPlainItems_toPlainItems h.2]

theorem ofPlainMembers_toPlainMembers : ∀ {ms : List (String × Json)},
    EverywhereMembers (fun node => node.names.Nodup) ms →
      ofPlainMembers (toPlainMembers ms) = ms
  | [], _ => rfl
  | (name, x) :: ms, h => by
    rw [toPlainMembers, ofPlainMembers, ofPlain_toPlain h.1, ofPlainMembers_toPlainMembers h.2]

end

mutual

/-- A plain value with distinct names is the plain form of what it is converted to. -/
theorem toPlain_ofPlain : ∀ {x : PlainJson}, x.DistinctNames → (ofPlain x).toPlain = x
  | .null, _ | .bool _, _ | .number _, _ | .string _, _ => rfl
  | .array items, h => by
    rw [PlainJson.DistinctNames] at h
    rw [ofPlain, toPlain, toPlainItems_ofPlainItems h]
  | .object members, h => by
    rw [PlainJson.DistinctNames] at h
    rw [ofPlain_object h.1, toPlain_object (by rw [keys_ofPlainMembers]; exact h.1),
      toPlainMembers_ofPlainMembers h.2]

theorem toPlainItems_ofPlainItems : ∀ {xs : List PlainJson},
    PlainJson.DistinctItems xs → toPlainItems (ofPlainItems xs) = xs
  | [], _ => rfl
  | x :: xs, h => by
    rw [PlainJson.DistinctItems] at h
    rw [ofPlainItems, toPlainItems, toPlain_ofPlain h.1, toPlainItems_ofPlainItems h.2]

theorem toPlainMembers_ofPlainMembers : ∀ {ms : List (String × PlainJson)},
    PlainJson.DistinctMembers ms → toPlainMembers (ofPlainMembers ms) = ms
  | [], _ => rfl
  | (name, x) :: ms, h => by
    rw [PlainJson.DistinctMembers] at h
    rw [ofPlainMembers, toPlainMembers, toPlain_ofPlain h.1, toPlainMembers_ofPlainMembers h.2]

end

end Json

/-! ## Documents -/

/-- A plain value that carries the proof that no object in it has a name twice. -/
abbrev PlainDocument := {x : PlainJson // x.DistinctNames}

/-- Documents and plain documents are the same data: each has one plain form, and each plain
document is the plain form of one document. -/
def Json.Document.plainEquiv : Json.Document ≃ PlainDocument where
  toFun doc := ⟨doc.1.toPlain, Json.distinctNames_toPlain doc.1⟩
  invFun plain := ⟨Json.ofPlain plain.1, Json.distinctNames_ofPlain plain.1⟩
  left_inv doc := Subtype.ext (Json.ofPlain_toPlain doc.2)
  right_inv plain := Subtype.ext (Json.toPlain_ofPlain plain.2)

end JsonEdit
