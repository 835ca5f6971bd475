import JsonEdit.Command
import JsonEdit.Patch.Plain
import JsonEdit.Proofs.Json.Plain
import JsonEdit.Proofs.Json.Read
import JsonEdit.Proofs.Patch.RoundTrip

/-!
# Patches and their plain forms

An operation can be decoded from a plain value, or from the value that this is converted to, and
it can be encoded as a value that is converted to its plain form, or as a plain value at once.
Both ways are the same, the error included.  So what is proved of `Op.ofJson`, `Op.toJson` and
the tools holds with plain values in their place.

There are three groups.

* Decoding commutes with the conversion of a plain document.  What it comes down to is that a
  lookup does (`get?_ofPlainMembers`).
* Encoding commutes with the conversion to a plain value.
* Texts.  A text is read as a plain value first, and converted then.
-/

namespace JsonEdit

/-! ## Decoding -/

/-- A member is found in the conversion as the conversion of what is found in the plain object. -/
theorem Json.get?_ofPlainMembers (members : Members PlainJson) (name : String) :
    Members.get? (ofPlainMembers members) name =
      (Members.get? members name).map ofPlain := by
  induction members with
  | nil => rfl
  | cons entry rest ih =>
    obtain ⟨key, value⟩ := entry
    rw [ofPlainMembers, Members.get?, Members.get?]
    split
    · rfl
    · exact ih

namespace Patch

open Json (ofPlainMembers get?_ofPlainMembers)

variable (members : Members PlainJson)

theorem plainPointer_eq (name : String) :
    plainPointer members name = pointerMember (ofPlainMembers members) name := by
  rw [plainPointer, pointerMember, stringMember, get?_ofPlainMembers]
  cases Members.get? members name with
  | none => rfl
  | some value => cases value <;> rfl

theorem plainValue_eq : plainValue members = valueMember (ofPlainMembers members) := by
  rw [plainValue, valueMember, get?_ofPlainMembers]
  cases Members.get? members "value" <;> rfl

theorem ofPlainMembers_eq (name : String) (path : Pointer) :
    Op.ofPlainMembers name path members = Op.ofMembers name path (ofPlainMembers members) := by
  unfold Op.ofPlainMembers
  rw [plainValue_eq, plainPointer_eq]
  rfl

end Patch

/-- An operation is decoded from a plain document as from what this is converted to. -/
theorem Op.ofPlain_eq_ofJson {x : PlainJson} (hx : x.DistinctNames) :
    Op.ofPlain x = Op.ofJson (Json.ofPlain x) := by
  cases x with
  | object members =>
    rw [Json.ofPlain_object (PlainJson.distinctNames_object_iff.mp hx).1, Op.ofPlain, Op.ofJson,
      Patch.opMember, Json.get?_ofPlainMembers, ← Patch.plainPointer_eq]
    cases Members.get? members "op" with
    | none => rfl
    | some value =>
      cases value with
      | string name =>
        show Except.bind _ _ = Except.bind _ _
        exact congrArg _ (funext fun path => Patch.ofPlainMembers_eq members name path)
      | _ => rfl
  | _ => rfl

/-- A patch is decoded from a plain document as from what this is converted to. -/
theorem Patch.ofPlain_eq_ofJson {x : PlainJson} (hx : x.DistinctNames) :
    Patch.ofPlain x = Patch.ofJson (Json.ofPlain x) := by
  cases x with
  | array items =>
    rw [PlainJson.DistinctNames] at hx
    show items.mapM Op.ofPlain = ofItems (Json.ofPlainItems items)
    induction items with
    | nil => rfl
    | cons item rest ih =>
      rw [PlainJson.DistinctItems] at hx
      rw [List.mapM_cons, Op.ofPlain_eq_ofJson hx.1, ih hx.2]
      rfl
  | _ => rfl

/-! ## Encoding -/

/-- An operation is encoded as a plain value at once as by way of a value. -/
theorem Op.toPlain_eq_toPlain_toJson (op : Op) : op.toPlain = op.toJson.toPlain := by
  cases op <;> rfl

theorem Patch.toPlain_eq_toPlain_toJson (ops : List Op) :
    Patch.toPlain ops = (Patch.toJson ops).toPlain := by
  have hitems : ops.map Op.toPlain = Json.toPlainItems (ops.map Op.toJson) := by
    induction ops with
    | nil => rfl
    | cons op rest ih =>
      rw [List.map_cons, List.map_cons, Json.toPlainItems, ih, Op.toPlain_eq_toPlain_toJson]
  rw [Patch.toPlain, Patch.toJson, Json.toPlain, hitems]

theorem Op.distinctNames_toJson {op : Op} (hop : op.DistinctNames) : op.toJson.DistinctNames := by
  have htext : ∀ s : String, (Json.string s).DistinctNames := fun _ => List.nodup_nil
  cases op with
  | add path value | replace path value | test path value =>
    have hnames : ["op", "path", "value"].Nodup := by decide
    exact ⟨hnames, htext _, htext _, hop value rfl, trivial⟩
  | remove path =>
    have hnames : ["op", "path"].Nodup := by decide
    exact ⟨hnames, htext _, htext _, trivial⟩
  | copy path source | move path source =>
    have hnames : ["op", "path", "from"].Nodup := by decide
    exact ⟨hnames, htext _, htext _, htext _, trivial⟩

theorem Patch.distinctNames_toJson {ops : List Op} (hops : ∀ op ∈ ops, op.DistinctNames) :
    (Patch.toJson ops).DistinctNames := by
  refine Json.distinctNames_array_iff.mpr (List.forall_mem_map.mpr ?_)
  intro op hop
  exact Op.distinctNames_toJson (hops op hop)

/-- A patch that is written as a plain value is decoded as the one that is written as a value. -/
theorem Patch.ofPlain_toPlain {ops : List Op} (hops : ∀ op ∈ ops, op.DistinctNames) :
    Patch.ofPlain (Patch.toPlain ops) = Patch.ofJson (Patch.toJson ops) := by
  rw [Patch.toPlain_eq_toPlain_toJson, Patch.ofPlain_eq_ofJson (Json.distinctNames_toPlain _),
    Json.ofPlain_toPlain (distinctNames_toJson hops)]

/-! ## Texts -/

/-- The plain value of a text. -/
def PlainJson.parse (s : String) : Except Json.ReadError PlainJson :=
  (Json.parse s).map Json.toPlain

/-- A text is read as a value by converting the plain value that it is read as. -/
theorem Json.parse_eq_map_ofPlain (s : String) :
    Json.parse s = (PlainJson.parse s).map Json.ofPlain := by
  rw [PlainJson.parse]
  cases h : Json.parse s with
  | error e => rfl
  | ok x =>
    have hx : x.DistinctNames := (Json.clean_of_parse h).distinctNames
    exact congrArg Except.ok (Json.ofPlain_toPlain hx).symm

/-- A tool decodes its patch from the plain value of a text. -/
theorem Command.applyPatch_eq_plain (document patch : String) :
    Command.applyPatch document patch = (do
      let doc ← ((PlainJson.parse document).map Json.ofPlain).mapError .json
      let value ← (PlainJson.parse patch).mapError .json
      let ops ← (Patch.ofPlain value).mapError .patch
      let result ← (Patch.applyAll doc ops).mapError .patch
      pure result.pretty) := by
  rw [Command.applyPatch, ← Json.parse_eq_map_ofPlain, PlainJson.parse]
  cases h : Json.parse patch with
  | error e => rfl
  | ok value =>
    have hops : Patch.ofPlain value.toPlain = Patch.ofJson value := by
      rw [Patch.ofPlain_eq_ofJson (Json.distinctNames_toPlain value),
        Json.ofPlain_toPlain (Json.clean_of_parse h).distinctNames]
    simp only [Except.map, mapError_ok, bind, Except.bind, hops]

end JsonEdit
