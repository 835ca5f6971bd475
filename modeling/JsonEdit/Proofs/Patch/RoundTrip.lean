import JsonEdit.Proofs.Patch.Decode

/-!
# Patches that come back

A patch is written without any check and read with all of them.  A pointer comes back from
its text step by step, unless strict reading refuses the text for its length.  This module
proves that nothing else happens to a patch on the way, so it is lost only by its pointers.

There are three groups.

* One operation.  `Op.pointers` lists the pointers in the order in which they are read, and
  `Op.ofJson_toJson` computes what is read from a written operation.
* What comes back.  `Op.reread` is an operation after it was written and read, and
  `reread_eq_self_iff` says which operations come back as they were.
* Patches.  `ofJson_toJson` is the induction on the operations.  What is read back is compared
  with what was written, first exactly and then up to the order of members.
-/

namespace JsonEdit

namespace Op

/-! ## One operation -/

/-- The pointers of an operation, in the order in which they are read. -/
def pointers (op : Op) : List Pointer := op.path :: op.source?.toList

/-- An operation with each of its pointers changed. -/
def mapPointers (f : Pointer → Pointer) : Op → Op
  | add path value => add (f path) value
  | remove path => remove (f path)
  | replace path value => replace (f path) value
  | copy path source => copy (f path) (f source)
  | move path source => move (f path) (f source)
  | test path value => test (f path) value

/-- The operation that a written operation is read as. -/
def reread (op : Op) : Op := op.mapPointers (List.map Step.reread)

/-- The pointer that is read from a member with the text of a pointer. -/
theorem pointerMember_render {members : List (String × Json)} {name : String} {p : Pointer}
    (h : Members.get? members name = some (.string p.render)) :
    Patch.pointerMember members name =
      match p.excess? {} with
      | some cause => .error (.invalidPointer cause)
      | none => .ok (p.map Step.reread) := by
  simp only [Patch.pointerMember, Patch.stringMember, h, Pointer.parse,
    Pointer.parseWithin_render]
  cases p.excess? {} <;> rfl

/-- What is read beside the path of a written operation. -/
theorem ofMembers_operand (op : Op) :
    ofMembers op.name (op.path.map Step.reread)
        (("op", .string op.name) :: ("path", .string op.path.render) :: op.operand) =
      match op.source?.toList.findSome? (Pointer.excess? {}) with
      | some cause => .error (.invalidPointer cause)
      | none => .ok op.reread := by
  cases op with
  | remove path => rfl
  | add path value | replace path value | test path value =>
    simp [ofMembers, Op.name, operand, Patch.valueMember, Members.get?, Except.map, Op.source?,
      reread, mapPointers, Op.path]
  | copy path source | move path source =>
    simp only [ofMembers, Op.name, operand]
    rw [pointerMember_render (p := source) (by simp [Members.get?])]
    simp only [Op.source?, Option.toList_some, List.findSome?_cons, List.findSome?_nil]
    cases source.excess? {} <;> rfl

/-- A written operation is read with its pointers read step by step, unless one of them breaks
a bound. -/
theorem ofJson_toJson (op : Op) :
    Op.ofJson op.toJson =
      match op.pointers.findSome? (Pointer.excess? {}) with
      | some cause => .error (.invalidPointer cause)
      | none => .ok op.reread := by
  have hname : Patch.opMember
      (("op", .string op.name) :: ("path", .string op.path.render) :: op.operand) =
        .ok op.name := by
    simp [Patch.opMember, Members.get?]
  have hpath : Members.get?
      (("op", .string op.name) :: ("path", .string op.path.render) :: op.operand) "path" =
        some (Json.string op.path.render) := by
    simp [Members.get?]
  rw [toJson, Op.ofJson, hname, pointerMember_render hpath, pointers, List.findSome?_cons]
  cases op.path.excess? {} with
  | some cause => rfl
  | none => exact ofMembers_operand op

/-! ## What comes back -/

theorem reread_eq_self_iff {op : Op} :
    op.reread = op ↔ ∀ p ∈ op.pointers, p.map Step.reread = p := by
  cases op <;> simp [reread, mapPointers, pointers, Op.path, Op.source?]

theorem pointers_reread (op : Op) :
    op.reread.pointers = op.pointers.map (List.map Step.reread) := by
  cases op <;> rfl

theorem pointers_eq_of_same {a b : Op} (h : a.Same b) : a.pointers = b.pointers := by
  cases h <;> rfl

/-- An operation that comes back with the same pointers comes back as it was. -/
theorem eq_of_same_reread {op : Op} (h : op.reread.Same op) : op.reread = op := by
  have hpointers : op.pointers.map (List.map Step.reread) = op.pointers.map id := by
    rw [← pointers_reread, pointers_eq_of_same h, List.map_id]
  exact reread_eq_self_iff.mpr (List.map_inj_left.mp hpointers)

end Op

/-! ## Patches -/

namespace Patch

/-- A written patch is read with its pointers read step by step, unless one of them breaks a
bound. -/
theorem ofJson_toJson (ops : List Op) :
    ofJson (toJson ops) =
      match (ops.flatMap Op.pointers).findSome? (Pointer.excess? {}) with
      | some cause => .error (.invalidPointer cause)
      | none => .ok (ops.map Op.reread) := by
  rw [toJson, ofJson]
  induction ops with
  | nil => rfl
  | cons op rest ih =>
    rw [List.map_cons, ofItems_cons, Op.ofJson_toJson, ih, List.flatMap_cons,
      List.findSome?_append]
    cases op.pointers.findSome? (Pointer.excess? {}) with
    | some cause => rfl
    | none => cases (rest.flatMap Op.pointers).findSome? (Pointer.excess? {}) <;> rfl

/-- The pointers of a patch that comes back as it was. -/
theorem map_reread_eq_self_iff {ops : List Op} :
    ops.map Op.reread = ops ↔
      ∀ op ∈ ops, ∀ p ∈ op.pointers, ∀ step ∈ p, step.InRange ∧ step.Canonical := by
  calc ops.map Op.reread = ops
    _ ↔ ops.map Op.reread = ops.map id := by rw [List.map_id]
    _ ↔ ∀ op ∈ ops, op.reread = op := List.map_inj_left
    _ ↔ ∀ op ∈ ops, ∀ p ∈ op.pointers, ∀ step ∈ p, step.InRange ∧ step.Canonical := by
      simp only [Op.reread_eq_self_iff, Pointer.map_reread_eq_self_iff]

/-- Operations that come back equal to the written ones, the order of members left aside, come
back as they were. -/
theorem map_reread_eq_self_of_same {ops : List Op}
    (h : List.Forall₂ Op.Same (ops.map Op.reread) ops) : ops.map Op.reread = ops := by
  induction ops with
  | nil => rfl
  | cons op rest ih =>
    rw [List.map_cons] at h ⊢
    obtain ⟨hop, hrest⟩ := List.forall₂_cons.mp h
    rw [Op.eq_of_same_reread hop, ih hrest]

/-- A written patch is read exactly if no pointer breaks a bound. -/
theorem ofJson_toJson_eq_ok_iff {ops back : List Op} :
    ofJson (toJson ops) = .ok back ↔
      (∀ op ∈ ops, ∀ p ∈ op.pointers, p.length ≤ 256 ∧ p.render.utf8ByteSize ≤ 1024) ∧
        ops.map Op.reread = back := by
  have hbounds : (ops.flatMap Op.pointers).findSome? (Pointer.excess? {}) = none ↔
      ∀ op ∈ ops, ∀ p ∈ op.pointers, p.length ≤ 256 ∧ p.render.utf8ByteSize ≤ 1024 := by
    rw [List.findSome?_eq_none_iff, List.forall_mem_flatMap]
    simp only [Pointer.excess?_eq_none_iff]
  rw [ofJson_toJson, ← hbounds]
  cases (ops.flatMap Op.pointers).findSome? (Pointer.excess? {}) <;> simp

/-- Reading a written patch fails exactly if a pointer breaks a bound, because it would be read
if they all kept to it. -/
theorem exists_ofJson_toJson_eq_error_iff {ops : List Op} :
    (∃ e, ofJson (toJson ops) = .error e) ↔
      ∃ op ∈ ops, ∃ p ∈ op.pointers, 256 < p.length ∨ 1024 < p.render.utf8ByteSize := by
  cases hread : ofJson (toJson ops) with
  | ok back =>
    have hbounds := (ofJson_toJson_eq_ok_iff.mp hread).1
    refine iff_of_false (by simp) ?_
    rintro ⟨op, hop, p, hp, hlong⟩
    have hshort := hbounds op hop p hp
    omega
  | error e =>
    refine iff_of_true ⟨e, rfl⟩ ?_
    by_contra hnone
    simp only [not_exists, not_and, not_or, Nat.not_lt] at hnone
    rw [ofJson_toJson_eq_ok_iff.mpr ⟨hnone, rfl⟩] at hread
    simp at hread

/-- The error is that of the first pointer that breaks a bound. -/
theorem ofJson_toJson_eq_error_iff {ops : List Op} {e : Error} :
    ofJson (toJson ops) = .error e ↔
      ∃ front p back, ops.flatMap Op.pointers = front ++ p :: back ∧
        (∀ q ∈ front, q.length ≤ 256 ∧ q.render.utf8ByteSize ≤ 1024) ∧
        ((1024 < p.render.utf8ByteSize ∧ e = .invalidPointer .tooLong) ∨
          (p.render.utf8ByteSize ≤ 1024 ∧ 256 < p.length ∧
            e = .invalidPointer .tooManySteps)) := by
  have hfirst : ofJson (toJson ops) = .error e ↔
      ∃ cause, (ops.flatMap Op.pointers).findSome? (Pointer.excess? {}) = some cause ∧
        e = .invalidPointer cause := by
    rw [ofJson_toJson]
    cases (ops.flatMap Op.pointers).findSome? (Pointer.excess? {}) <;> simp [eq_comm]
  rw [hfirst]
  simp only [List.findSome?_eq_some_iff, Pointer.excess?_eq_none_iff, Pointer.excess?_eq_some_iff]
  constructor
  · rintro ⟨cause, ⟨front, p, back, hsplit, hcause, hfront⟩, rfl⟩
    refine ⟨front, p, back, hsplit, hfront, ?_⟩
    rcases hcause with ⟨hbytes, rfl⟩ | ⟨hbytes, hsteps, rfl⟩
    · exact .inl ⟨hbytes, rfl⟩
    · exact .inr ⟨hbytes, hsteps, rfl⟩
  · rintro ⟨front, p, back, hsplit, hfront, ⟨hbytes, rfl⟩ | ⟨hbytes, hsteps, rfl⟩⟩
    · exact ⟨_, ⟨front, p, back, hsplit, .inl ⟨hbytes, rfl⟩, hfront⟩, rfl⟩
    · exact ⟨_, ⟨front, p, back, hsplit, .inr ⟨hbytes, hsteps, rfl⟩, hfront⟩, rfl⟩

/-- A patch that was written is read as the same operations, values included, exactly if each
of its pointers has steps that come back, at most 256 of them, and a text of at most 1024
bytes.  Operations that are read and equal the written ones up to the order of members are
the written ones.  Reading fails exactly if a pointer breaks one of the two bounds,
and then with the error of the first that does, in the order of the operations and with the
path of an operation before its source. -/
theorem written_patch_comes_back_iff :
    (∀ ops : List Op, ofJson (toJson ops) = .ok ops ↔
        ∀ op ∈ ops, ∀ p ∈ op.pointers, (∀ step ∈ p, step.InRange ∧ step.Canonical) ∧
          p.length ≤ 256 ∧ p.render.utf8ByteSize ≤ 1024) ∧
      (∀ ops : List Op, (∀ op ∈ ops, op.DistinctNames) →
        ((∃ back, ofJson (toJson ops) = .ok back ∧ List.Forall₂ Op.Same back ops) ↔
          ofJson (toJson ops) = .ok ops)) ∧
      (∀ ops : List Op, (∃ e, ofJson (toJson ops) = .error e) ↔
        ∃ op ∈ ops, ∃ p ∈ op.pointers, 256 < p.length ∨ 1024 < p.render.utf8ByteSize) ∧
      ∀ (ops : List Op) (e : Error), ofJson (toJson ops) = .error e ↔
        ∃ front p back, ops.flatMap Op.pointers = front ++ p :: back ∧
          (∀ q ∈ front, q.length ≤ 256 ∧ q.render.utf8ByteSize ≤ 1024) ∧
          ((1024 < p.render.utf8ByteSize ∧ e = .invalidPointer .tooLong) ∨
            (p.render.utf8ByteSize ≤ 1024 ∧ 256 < p.length ∧
              e = .invalidPointer .tooManySteps)) := by
  refine ⟨?_, ?_, fun ops => exists_ofJson_toJson_eq_error_iff,
    fun ops e => ofJson_toJson_eq_error_iff⟩
  · intro ops
    rw [ofJson_toJson_eq_ok_iff, map_reread_eq_self_iff, and_comm]
    constructor
    · rintro ⟨hsteps, hbounds⟩ op hop p hp
      exact ⟨hsteps op hop p hp, hbounds op hop p hp⟩
    · intro h
      exact ⟨fun op hop p hp => (h op hop p hp).1, fun op hop p hp => (h op hop p hp).2⟩
  · intro ops hdistinct
    constructor
    · rintro ⟨back, hread, hsame⟩
      obtain ⟨-, rfl⟩ := ofJson_toJson_eq_ok_iff.mp hread
      rwa [map_reread_eq_self_of_same hsame] at hread
    · intro hread
      exact ⟨ops, hread, List.forall₂_same.mpr fun op hop => Op.same_self (hdistinct op hop)⟩

/-- A patch with an escape, a hyphen, an index and a numeral that is too great for one. -/
theorem written_patch_comes_back_copy_and_test :
    ofJson (toJson [.copy [.key "a/b", .pastEnd] [.index 0, .key "18446744073709551616"],
        .test [] (.object [("b", .null), ("a", .ofInt 1)])]) =
      .ok [.copy [.key "a/b", .pastEnd] [.index 0, .key "18446744073709551616"],
        .test [] (.object [("b", .null), ("a", .ofInt 1)])] ∧
    ∃ back, ofJson (toJson [.copy [.key "a/b", .pastEnd] [.index 0, .key "18446744073709551616"],
        .test [] (.object [("b", .null), ("a", .ofInt 1)])]) = .ok back ∧
      List.Forall₂ Op.Same back
        [.copy [.key "a/b", .pastEnd] [.index 0, .key "18446744073709551616"],
          .test [] (.object [("b", .null), ("a", .ofInt 1)])] := by
  have hread := (written_patch_comes_back_iff.1
    [.copy [.key "a/b", .pastEnd] [.index 0, .key "18446744073709551616"],
      .test [] (.object [("b", .null), ("a", .ofInt 1)])]).mpr (by decide)
  exact ⟨hread, (written_patch_comes_back_iff.2.1 _ (by decide)).mpr hread⟩

end Patch

end JsonEdit
