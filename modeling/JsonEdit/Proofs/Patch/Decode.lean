import JsonEdit.Patch.Wire
import JsonEdit.Proofs.Patch.Congruence
import JsonEdit.Proofs.Pointer.Strict

/-!
# Reading operations

An operation is read from four members of an object: `op`, `path` and, as its name needs,
`value` or `from`.  This module says what the reader accepts, what it gives and which fault
it reports, each in terms of these members alone.

There are five groups.

* Members.  `Json.member?` looks a member up in any value, `HasPointer` says that a member is
  the text of a pointer, and `ofMembers_cases` sorts the operations by what they need.
* Accepted values.  `Carries` relates a value to the operation that it stands for, and
  `ofJson_eq_ok_iff` says that the reader finds this operation and accepts nothing else.
* Faults.  `checks` lists everything that is asked of a value, in order.  Each check is
  stated for itself, and `ofJson_eq_error_iff` says that the first one that fails is
  reported.
* What is kept.  `exists_members_of_carries` compares the value with the one that is
  written for its operation.
* Patches.  `ofItems_eq_ok_iff` and `ofItems_eq_error_iff` read an array item by item, and
  `decode_accepts_wire_format` is the assembly.
-/

namespace JsonEdit

/-! ## Members -/

/-- The error of a result, if it is one. -/
def error? {α ε : Type} : Except ε α → Option ε
  | .ok _ => none
  | .error e => some e

theorem error?_map {α β ε : Type} (f : α → β) (x : Except ε α) : error? (x.map f) = error? x := by
  cases x <;> rfl

theorem error?_eq_some_iff {α ε : Type} {x : Except ε α} {e : ε} :
    error? x = some e ↔ x = .error e := by
  cases x <;> simp [error?]

/-- The value of a member.  A value that is not an object has no members. -/
def Json.member? : Json → String → Option Json
  | .object members, name => Members.get? members name
  | _, _ => none

namespace Op

/-- The member with this name is a string, and strict reading accepts it as this pointer. -/
def HasPointer (v : Json) (name : String) (p : Pointer) : Prop :=
  ∃ text, v.member? name = some (.string text) ∧ Pointer.parse text = .ok p

/-- The names of the operations that have a value. -/
def valueNames : List String := ["add", "replace", "test"]

/-- The names of the operations that have a source. -/
def sourceNames : List String := ["copy", "move"]

/-- The names of all operations. -/
def names : List String := "remove" :: valueNames ++ sourceNames

section

variable {members : List (String × Json)} {name : String}

theorem pointerMember_eq_ok_iff {p : Pointer} :
    Patch.pointerMember members name = .ok p ↔ HasPointer (.object members) name p := by
  simp only [HasPointer, Json.member?, Patch.pointerMember, Patch.stringMember]
  cases Members.get? members name with
  | none => simp
  | some value =>
    cases value with
    | string text => simp [mapError_eq_ok_iff]
    | _ => simp

theorem valueMember_eq_ok_iff {value : Json} :
    Patch.valueMember members = .ok value ↔
      Json.member? (.object members) "value" = some value := by
  simp only [Json.member?, Patch.valueMember]
  cases Members.get? members "value" <;> simp

theorem opMember_eq_ok_iff :
    Patch.opMember members = .ok name ↔
      Json.member? (.object members) "op" = some (.string name) := by
  simp only [Json.member?, Patch.opMember]
  cases Members.get? members "op" with
  | none => simp
  | some value => cases value <;> simp

/-- What is read beside the path, by the name of the operation: a value, a source or nothing.
Other names are unknown. -/
theorem ofMembers_cases (name : String) (path : Pointer) (members : List (String × Json)) :
    (name ∈ valueNames ∧ ∃ make : Json → Op,
        ofMembers name path members = (Patch.valueMember members).map make ∧
        ∀ value, (make value).name = name ∧ (make value).path = path ∧
          (make value).value? = some value ∧ (make value).source? = none) ∨
      (name ∈ sourceNames ∧ ∃ make : Pointer → Op,
        ofMembers name path members = (Patch.pointerMember members "from").map make ∧
        ∀ source, (make source).name = name ∧ (make source).path = path ∧
          (make source).value? = none ∧ (make source).source? = some source) ∨
      (name = "remove" ∧ ofMembers name path members = .ok (remove path)) ∨
      (name ∉ names ∧ ofMembers name path members = .error (.malformed (.unknownOp name))) := by
  unfold ofMembers
  split
  · exact .inl ⟨by decide, add path, rfl, fun _ => ⟨rfl, rfl, rfl, rfl⟩⟩
  · exact .inr (.inr (.inl ⟨rfl, rfl⟩))
  · exact .inl ⟨by decide, replace path, rfl, fun _ => ⟨rfl, rfl, rfl, rfl⟩⟩
  · exact .inr (.inl ⟨by decide, copy path, rfl, fun _ => ⟨rfl, rfl, rfl, rfl⟩⟩)
  · exact .inr (.inl ⟨by decide, move path, rfl, fun _ => ⟨rfl, rfl, rfl, rfl⟩⟩)
  · exact .inl ⟨by decide, test path, rfl, fun _ => ⟨rfl, rfl, rfl, rfl⟩⟩
  · exact .inr (.inr (.inr ⟨by simp_all [names, valueNames, sourceNames], rfl⟩))

/-! ## Accepted values -/

/-- A value stands for an operation: it has the members that the operation needs, in any
order and with any others. -/
structure Carries (v : Json) (op : Op) : Prop where
  name : v.member? "op" = some (.string op.name)
  path : HasPointer v "path" op.path
  value : ∀ value, op.value? = some value → v.member? "value" = some value
  source : ∀ source, op.source? = some source → HasPointer v "from" source

theorem ofMembers_eq_ok_iff {path : Pointer} {op : Op} :
    ofMembers name path members = .ok op ↔
      name = op.name ∧ path = op.path ∧
        (∀ value, op.value? = some value →
          Json.member? (.object members) "value" = some value) ∧
        ∀ source, op.source? = some source → HasPointer (.object members) "from" source := by
  constructor
  · intro h
    obtain ⟨-, make, hmake, hparts⟩ | ⟨-, make, hmake, hparts⟩ | ⟨rfl, hremove⟩ | ⟨-, hunknown⟩ :=
      ofMembers_cases name path members
    · rw [hmake] at h
      obtain ⟨value, hvalue, rfl⟩ := map_eq_ok_iff.mp h
      simp [hparts value, valueMember_eq_ok_iff.mp hvalue]
    · rw [hmake] at h
      obtain ⟨source, hsource, rfl⟩ := map_eq_ok_iff.mp h
      simp [hparts source, pointerMember_eq_ok_iff.mp hsource]
    · obtain rfl : remove path = op := by simpa [hremove] using h
      simp [Op.name, Op.path, Op.value?, Op.source?]
    · simp [hunknown] at h
  · rintro ⟨rfl, rfl, hvalue, hsource⟩
    cases op with
    | remove path => rfl
    | add path value | replace path value | test path value =>
      have h := valueMember_eq_ok_iff.mpr (hvalue value rfl)
      simp [ofMembers, Op.name, Op.path, h, Except.map]
    | copy path source | move path source =>
      have h := pointerMember_eq_ok_iff.mpr (hsource source rfl)
      simp [ofMembers, Op.name, Op.path, h, Except.map]

theorem ofJson_object_eq_ok_iff {op : Op} :
    Op.ofJson (.object members) = .ok op ↔
      ∃ name path, Patch.opMember members = .ok name ∧
        Patch.pointerMember members "path" = .ok path ∧ ofMembers name path members = .ok op := by
  simp only [Op.ofJson, bind, Except.bind]
  cases Patch.opMember members with
  | error e => simp
  | ok name => cases Patch.pointerMember members "path" <;> simp

theorem ofJson_eq_ok_iff {v : Json} {op : Op} : Op.ofJson v = .ok op ↔ Carries v op := by
  cases v with
  | object members =>
    rw [ofJson_object_eq_ok_iff]
    constructor
    · rintro ⟨name, path, hname, hpath, h⟩
      obtain ⟨rfl, rfl, hvalue, hsource⟩ := ofMembers_eq_ok_iff.mp h
      exact ⟨opMember_eq_ok_iff.mp hname, pointerMember_eq_ok_iff.mp hpath, hvalue, hsource⟩
    · intro h
      exact ⟨op.name, op.path, opMember_eq_ok_iff.mpr h.name, pointerMember_eq_ok_iff.mpr h.path,
        ofMembers_eq_ok_iff.mpr ⟨rfl, rfl, h.value, h.source⟩⟩
  | _ =>
    refine iff_of_false (by simp [Op.ofJson]) fun h => ?_
    simpa [Json.member?] using h.name

end

/-- A value has all that the name of its operation asks for. -/
structure Accepted (v : Json) (name : String) : Prop where
  isObject : v.kind = .object
  opIsString : v.member? "op" = some (.string name)
  opKnown : name ∈ names
  path : ∃ p, HasPointer v "path" p
  value : name ∈ valueNames → ∃ value, v.member? "value" = some value
  source : name ∈ sourceNames → ∃ p, HasPointer v "from" p

theorem accepted_of_carries {v : Json} {op : Op} (h : Carries v op) : Accepted v op.name where
  isObject := by
    cases v with
    | object members => rfl
    | _ => simpa [Json.member?] using h.name
  opIsString := h.name
  opKnown := by cases op <;> simp [Op.name, names, valueNames, sourceNames]
  path := ⟨op.path, h.path⟩
  value := by
    intro hname
    cases op with
    | add path value | replace path value | test path value => exact ⟨value, h.value value rfl⟩
    | remove path | copy path source | move path source =>
      simp [Op.name, valueNames] at hname
  source := by
    intro hname
    cases op with
    | copy path source | move path source => exact ⟨source, h.source source rfl⟩
    | add path value | replace path value | test path value | remove path =>
      simp [Op.name, sourceNames] at hname

/-- The reader gives an operation exactly for the values that have all that is asked for. -/
theorem exists_ofJson_eq_ok_iff {v : Json} :
    (∃ op, Op.ofJson v = .ok op) ↔ ∃ name, Accepted v name := by
  constructor
  · rintro ⟨op, hop⟩
    exact ⟨op.name, accepted_of_carries (ofJson_eq_ok_iff.mp hop)⟩
  · rintro ⟨name, h⟩
    cases v with
    | object members =>
      obtain ⟨path, hpath⟩ := h.path
      have hread : ∀ {op}, ofMembers name path members = .ok op →
          Op.ofJson (.object members) = .ok op := fun hop =>
        ofJson_object_eq_ok_iff.mpr
          ⟨name, path, opMember_eq_ok_iff.mpr h.opIsString, pointerMember_eq_ok_iff.mpr hpath, hop⟩
      obtain ⟨hmem, make, hmake, -⟩ | ⟨hmem, make, hmake, -⟩ | ⟨-, hremove⟩ | ⟨hmem, -⟩ :=
        ofMembers_cases name path members
      · obtain ⟨value, hvalue⟩ := h.value hmem
        exact ⟨make value, hread (by rw [hmake, valueMember_eq_ok_iff.mpr hvalue]; rfl)⟩
      · obtain ⟨source, hsource⟩ := h.source hmem
        exact ⟨make source, hread (by rw [hmake, pointerMember_eq_ok_iff.mpr hsource]; rfl)⟩
      · exact ⟨remove path, hread hremove⟩
      · exact absurd h.opKnown hmem
    | _ => simpa [Json.kind] using h.isObject

/-- Two objects that agree in the four members are read alike. -/
theorem ofJson_congr {ms ns : List (String × Json)}
    (h : ∀ name ∈ ["op", "path", "value", "from"], Members.get? ms name = Members.get? ns name) :
    Op.ofJson (.object ms) = Op.ofJson (.object ns) := by
  have hop : Patch.opMember ms = Patch.opMember ns := by
    simp only [Patch.opMember, h "op" (by decide)]
  have hpath : Patch.pointerMember ms "path" = Patch.pointerMember ns "path" := by
    simp only [Patch.pointerMember, Patch.stringMember, h "path" (by decide)]
  have hvalue : Patch.valueMember ms = Patch.valueMember ns := by
    simp only [Patch.valueMember, h "value" (by decide)]
  have hsource : Patch.pointerMember ms "from" = Patch.pointerMember ns "from" := by
    simp only [Patch.pointerMember, Patch.stringMember, h "from" (by decide)]
  simp only [Op.ofJson, hop, hpath, ofMembers, hvalue, hsource]

/-! ## Faults -/

/-- What is asked of a value that is read as an operation. -/
inductive Check where
  | isObject
  | opIsString
  /-- There is a member with this name. -/
  | present (name : String)
  /-- The member with this name is a string. -/
  | isString (name : String)
  /-- The member with this name is a text that strict reading accepts. -/
  | isPointer (name : String)
  /-- The operation has one of the six names. -/
  | opKnown

/-- The error of a check, if the check fails.  Each check takes for granted what another one
asks for: a member that is not there is not refused for being no string. -/
def Check.fault? (v : Json) : Check → Option Patch.Error
  | isObject => if v.kind = .object then none else some (.malformed .operationNotObject)
  | opIsString =>
    match v.member? "op" with
    | some (.string _) => none
    | _ => some (.malformed (.missing "op"))
  | present name =>
    match v.member? name with
    | some _ => none
    | none => some (.malformed (.missing name))
  | isString name =>
    match v.member? name with
    | some (.string _) | none => none
    | some _ => some (.malformed (.notString name))
  | isPointer name =>
    match v.member? name with
    | some (.string text) =>
      match Pointer.parse text with
      | .ok _ => none
      | .error cause => some (.invalidPointer cause)
    | _ => none
  | opKnown =>
    match v.member? "op" with
    | some (.string name) =>
      if name ∈ names then none else some (.malformed (.unknownOp name))
    | _ => none

/-- The checks of a member that is the text of a pointer. -/
def pointerChecks (name : String) : List Check := [.present name, .isString name, .isPointer name]

/-- The checks of what is read beside the path, by the name of the operation. -/
def operandChecks (v : Json) : List Check :=
  match v.member? "op" with
  | some (.string name) =>
    if name ∈ valueNames then [.present "value"]
    else if name ∈ sourceNames then pointerChecks "from"
    else []
  | _ => []

/-- All checks of a value that is read as an operation, in order. -/
def checks (v : Json) : List Check :=
  .isObject :: .opIsString :: pointerChecks "path" ++ .opKnown :: operandChecks v

/-- The error of the first check that fails. -/
def firstFault? (v : Json) : Option Patch.Error := (checks v).findSome? (Check.fault? v)

section

variable (members : List (String × Json))

theorem findSome?_pointerChecks (name : String) :
    (pointerChecks name).findSome? (Check.fault? (.object members)) =
      error? (Patch.pointerMember members name) := by
  simp only [pointerChecks, List.findSome?_cons, List.findSome?_nil, Check.fault?, Json.member?,
    Patch.pointerMember, Patch.stringMember]
  cases Members.get? members name with
  | none => rfl
  | some value =>
    cases value with
    | string text =>
      simp only
      cases Pointer.parse text <;> rfl
    | _ => rfl

theorem findSome?_valueCheck :
    [Check.present "value"].findSome? (Check.fault? (.object members)) =
      error? (Patch.valueMember members) := by
  simp only [List.findSome?_cons, List.findSome?_nil, Check.fault?, Json.member?,
    Patch.valueMember]
  cases Members.get? members "value" <;> rfl

theorem fault?_opIsString :
    Check.fault? (.object members) .opIsString = error? (Patch.opMember members) := by
  simp only [Check.fault?, Json.member?, Patch.opMember]
  cases Members.get? members "op" with
  | none => rfl
  | some value => cases value <;> rfl

/-- The checks behind those of the path. -/
theorem findSome?_operandChecks {name : String} (hop : Patch.opMember members = .ok name)
    (path : Pointer) :
    (Check.opKnown :: operandChecks (.object members)).findSome?
        (Check.fault? (.object members)) =
      error? (ofMembers name path members) := by
  have hname := opMember_eq_ok_iff.mp hop
  have hknown : Check.fault? (.object members) .opKnown =
      if name ∈ names then none else some (.malformed (.unknownOp name)) := by
    simp only [Check.fault?, hname]
  have hoperand : operandChecks (.object members) =
      if name ∈ valueNames then [.present "value"]
      else if name ∈ sourceNames then pointerChecks "from"
      else [] := by
    simp only [operandChecks, hname]
  rw [List.findSome?_cons, hknown, hoperand]
  obtain ⟨hmem, make, hmake, -⟩ | ⟨hmem, make, hmake, -⟩ | ⟨rfl, hremove⟩ | ⟨hmem, hunknown⟩ :=
    ofMembers_cases name path members
  · have hnames : name ∈ names := by simp [names, hmem]
    rw [if_pos hnames, if_pos hmem, hmake, error?_map]
    exact findSome?_valueCheck members
  · have hnames : name ∈ names := by simp [names, hmem]
    have hvalue : name ∉ valueNames := by
      intro h
      simp only [sourceNames, valueNames, List.mem_cons] at hmem h
      grind
    rw [if_pos hnames, if_neg hvalue, if_pos hmem, hmake, error?_map]
    exact findSome?_pointerChecks members "from"
  · rw [hremove]
    rfl
  · rw [if_neg hmem, hunknown]
    rfl

/-- The first check that fails has the error that the reader reports. -/
theorem firstFault?_eq (v : Json) : firstFault? v = error? (Op.ofJson v) := by
  cases v with
  | object members =>
    have hobject : Check.fault? (.object members) .isObject = none := rfl
    rw [firstFault?, checks, List.cons_append, List.cons_append, List.findSome?_cons, hobject,
      List.findSome?_cons, fault?_opIsString, List.findSome?_append, findSome?_pointerChecks]
    simp only [Op.ofJson, bind, Except.bind]
    cases hop : Patch.opMember members with
    | error e => rfl
    | ok name =>
      cases Patch.pointerMember members "path" with
      | error e => rfl
      | ok path => exact findSome?_operandChecks members hop path
  | _ => rfl

end

theorem ofJson_eq_error_iff {v : Json} {e : Patch.Error} :
    Op.ofJson v = .error e ↔ firstFault? v = some e := by
  rw [firstFault?_eq, error?_eq_some_iff]

/-! ## What is kept -/

/-- The names of the members that are written for an operation, in order. -/
def memberNames (op : Op) : List String :=
  "op" :: "path" ::
    if op.name ∈ valueNames then ["value"] else if op.name ∈ sourceNames then ["from"] else []

/-- The text of a pointer that was read from a member is the string of the member. -/
theorem member?_of_hasPointer {v : Json} {name : String} {p : Pointer} (h : HasPointer v name p) :
    v.member? name = some (.string p.render) := by
  obtain ⟨text, hmember, hparse⟩ := h
  rw [hmember, Pointer.render_of_parseWithin hparse]

/-- What is written for an operation is what the value that stands for it has under the same
names. -/
theorem exists_members_of_carries {v : Json} {op : Op} (h : Carries v op) :
    ∃ members, op.toJson = .object members ∧ Members.keys members = op.memberNames ∧
      ∀ name value, (name, value) ∈ members → v.member? name = some value := by
  refine ⟨_, rfl, by cases op <;> rfl, ?_⟩
  intro name value hmem
  rw [List.mem_cons, List.mem_cons] at hmem
  rcases hmem with hop | hpath | hoperand
  · obtain ⟨rfl, rfl⟩ := Prod.mk.inj hop
    exact h.name
  · obtain ⟨rfl, rfl⟩ := Prod.mk.inj hpath
    exact member?_of_hasPointer h.path
  · cases op with
    | add path old | replace path old | test path old =>
      obtain ⟨rfl, rfl⟩ := Prod.mk.inj (List.mem_singleton.mp hoperand)
      exact h.value _ rfl
    | copy path source | move path source =>
      obtain ⟨rfl, rfl⟩ := Prod.mk.inj (List.mem_singleton.mp hoperand)
      exact member?_of_hasPointer (h.source source rfl)
    | remove path => simp [operand] at hoperand

end Op

/-! ## Patches -/

namespace Patch

theorem ofItems_cons (item : Json) (rest : List Json) :
    ofItems (item :: rest) =
      match Op.ofJson item with
      | .error e => .error e
      | .ok op => (ofItems rest).map (op :: ·) := by
  rw [ofItems]
  cases Op.ofJson item with
  | error e => rfl
  | ok op =>
    change (ofItems rest).bind _ = _
    cases ofItems rest <;> rfl

theorem ofItems_eq_ok_iff {items : List Json} {ops : List Op} :
    ofItems items = .ok ops ↔ List.Forall₂ (fun item op => Op.ofJson item = .ok op) items ops := by
  induction items generalizing ops with
  | nil => simp [ofItems, eq_comm]
  | cons item rest ih =>
    rw [ofItems_cons]
    constructor
    · intro h
      cases hitem : Op.ofJson item with
      | error e => simp [hitem] at h
      | ok op =>
        rw [hitem] at h
        obtain ⟨others, hothers, rfl⟩ := map_eq_ok_iff.mp h
        exact .cons hitem (ih.mp hothers)
    · intro h
      cases h with
      | cons hitem hrest =>
        rw [hitem, ih.mpr hrest]
        rfl

/-- The fault of the first item that is no operation is reported. -/
theorem ofItems_eq_error_iff {items : List Json} {e : Error} :
    ofItems items = .error e ↔
      ∃ front item back, items = front ++ item :: back ∧
        (∀ x ∈ front, ∃ op, Op.ofJson x = .ok op) ∧ Op.ofJson item = .error e := by
  induction items with
  | nil => simp [ofItems]
  | cons item rest ih =>
    rw [ofItems_cons]
    constructor
    · intro h
      cases hitem : Op.ofJson item with
      | error cause =>
        obtain rfl : cause = e := by simpa [hitem] using h
        exact ⟨[], item, rest, rfl, by simp, hitem⟩
      | ok op =>
        rw [hitem] at h
        obtain ⟨front, bad, back, rfl, hfront, hbad⟩ := ih.mp (map_eq_error_iff.mp h)
        exact ⟨item :: front, bad, back, rfl,
          List.forall_mem_cons.mpr ⟨⟨op, hitem⟩, hfront⟩, hbad⟩
    · rintro ⟨front, bad, back, hsplit, hfront, hbad⟩
      cases front with
      | nil =>
        obtain ⟨rfl, rfl⟩ := List.cons.inj hsplit
        rw [hbad]
      | cons first front =>
        obtain ⟨rfl, rfl⟩ := List.cons.inj hsplit
        obtain ⟨⟨op, hop⟩, hothers⟩ := List.forall_mem_cons.mp hfront
        rw [hop]
        exact map_eq_error_iff.mpr (ih.mpr ⟨front, bad, back, rfl, hothers, hbad⟩)

/-- The reader of operations accepts exactly the wire format.  It accepts a value if and only if
the value has all that the name of its operation asks for, whatever other members it has
and in whatever order.  Then the operation is the one that the value stands for, and what
is written for it has the members of the value in their fixed order: the texts of the
pointers and the value as they were.  Any other value is refused for the first check that
it fails.  A patch is an array of such values, and is refused for the first item that is not. -/
theorem decode_accepts_wire_format :
    (∀ v : Json, (∃ op, Op.ofJson v = .ok op) ↔ ∃ name, Op.Accepted v name) ∧
      (∀ ms ns : Members Json, (Members.keys ms).Nodup → (Members.keys ns).Nodup →
        (∀ name ∈ ["op", "path", "value", "from"], ∀ value,
          (name, value) ∈ ms ↔ (name, value) ∈ ns) →
        Op.ofJson (.object ms) = Op.ofJson (.object ns)) ∧
      (∀ v op, Op.ofJson v = .ok op →
        Op.Carries v op ∧
        ∃ members, op.toJson = .object members ∧ Members.keys members = op.memberNames ∧
          ∀ name value, (name, value) ∈ members → v.member? name = some value) ∧
      (∀ v e, Op.ofJson v = .error e ↔ Op.firstFault? v = some e) ∧
      (∀ v ops, ofJson v = .ok ops ↔ ∃ items, v = .array items ∧
        List.Forall₂ (fun item op => Op.ofJson item = .ok op) items ops) ∧
      ∀ v e, ofJson v = .error e ↔
        (v.kind ≠ .array ∧ e = .malformed .patchNotArray) ∨
        ∃ front item back, v = .array (front ++ item :: back) ∧
          (∀ x ∈ front, ∃ op, Op.ofJson x = .ok op) ∧ Op.ofJson item = .error e := by
  refine ⟨fun v => Op.exists_ofJson_eq_ok_iff, ?_, ?_, fun v e => Op.ofJson_eq_error_iff, ?_, ?_⟩
  · intro ms ns hms hns hsame
    refine Op.ofJson_congr fun name hname => Option.ext fun value => ?_
    rw [Members.get?_eq_some_iff hms, Members.get?_eq_some_iff hns]
    exact hsame name hname value
  · intro v op h
    have hcarries := Op.ofJson_eq_ok_iff.mp h
    exact ⟨hcarries, Op.exists_members_of_carries hcarries⟩
  · intro v ops
    cases v with
    | array items =>
      rw [ofJson, ofItems_eq_ok_iff]
      simp
    | _ => simp [ofJson]
  · intro v e
    cases v with
    | array items =>
      rw [ofJson, ofItems_eq_error_iff]
      simp [Json.kind]
    | _ => simp [ofJson, Json.kind, eq_comm]

/-- A move with another member and in another order.  What is written for it has the three
members that it needs, with their texts, and is read as the same move. -/
theorem decode_accepts_wire_format_move :
    Op.Carries
        (.object [("note", .null), ("from", .string "/a~1b/0"), ("path", .string "/-"),
          ("op", .string "move")])
        (.move [.pastEnd] [.key "a/b", .index 0]) ∧
      Op.toJson (.move [.pastEnd] [.key "a/b", .index 0]) =
        .object [("op", .string "move"), ("path", .string "/-"), ("from", .string "/a~1b/0")] ∧
      Op.ofJson
          (.object [("op", .string "move"), ("path", .string "/-"), ("from", .string "/a~1b/0")]) =
        .ok (.move [.pastEnd] [.key "a/b", .index 0]) := by
  have hread : Op.ofJson
      (.object [("note", .null), ("from", .string "/a~1b/0"), ("path", .string "/-"),
        ("op", .string "move")]) = .ok (.move [.pastEnd] [.key "a/b", .index 0]) := rfl
  refine ⟨(decode_accepts_wire_format.2.2.1 _ _ hread).1, rfl, ?_⟩
  rw [← hread]
  exact decode_accepts_wire_format.2.1 _ _ (by decide) (by decide) (by simp)

end Patch

end JsonEdit
