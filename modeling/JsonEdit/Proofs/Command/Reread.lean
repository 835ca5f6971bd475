import JsonEdit.Command
import JsonEdit.Proofs.Json.Doubles
import JsonEdit.Proofs.Json.Read
import JsonEdit.Proofs.Patch.Provenance

/-!
# Reading what a patch printed

The tool prints the document that a patch left.  Names, strings, integers and doubles are
printed so that the reader takes them; what it may refuse is the nesting.  Every document that
was read is nested at most as deep as the reader goes, but an operation can put one part of a
document into another, and no operation looks at the depth of what it builds.

There are three groups.

* What a patch leaves.  Document and patch were read, so `clean_of_patched` says of the result
  what reading gives: distinct names, and integers of 64 bits.
* Printed documents.  `parse_output_iff` is the whole law: what is printed can be read exactly if
  it is not nested too deep.
* A document that is too deep.  One copy of a document into itself is enough.
-/

namespace JsonEdit.Command

open Json

/-! ## What a patch leaves -/

/-- The document that a patch leaves, both given as texts. -/
def patched (document patch : String) : Except Error Json := do
  let doc ← (Json.parse document).mapError .json
  let value ← (Json.parse patch).mapError .json
  let ops ← (Patch.ofJson value).mapError .patch
  (Patch.applyAll doc ops).mapError .patch

/-- The tool prints the document that the patch leaves. -/
theorem applyPatch_eq_map (document patch : String) :
    applyPatch document patch = (patched document patch).map Json.pretty := by
  show applyPatch document patch = Json.pretty <$> patched document patch
  simp only [applyPatch, patched, map_eq_pure_bind, bind_assoc]

/-- The parts of a run that leaves a document. -/
theorem exists_of_patched {document patch : String} {result : Json}
    (h : patched document patch = .ok result) :
    ∃ doc items ops, Json.parse document = .ok doc ∧ Json.parse patch = .ok (array items) ∧
      Patch.ofItems items = .ok ops ∧ Patch.applyAll doc ops = .ok result := by
  obtain ⟨doc, hdoc, hpatch⟩ := bind_eq_ok_iff.mp h
  obtain ⟨value, hvalue, hdecode⟩ := bind_eq_ok_iff.mp hpatch
  obtain ⟨ops, hops, happly⟩ := bind_eq_ok_iff.mp hdecode
  rw [mapError_eq_ok_iff] at hdoc hvalue hops happly
  cases value with
  | array items => exact ⟨doc, items, ops, hdoc, hvalue, hops, happly⟩
  | _ => cases hops

/-- But for its depth, it could have been read. -/
theorem clean_of_patched {document patch : String} {result : Json}
    (h : patched document patch = .ok result) : result.Clean := by
  obtain ⟨doc, items, ops, hdocument, hpatch, hops, happly⟩ := exists_of_patched h
  exact Patch.clean_of_applyAll (clean_of_parse hdocument) (clean_of_parse hpatch) hops happly

/-! ## Printed documents -/

/-- A number with another double, if it is one. -/
def mapDouble (f : Double → Double) : Number → Number
  | .int i => .int i
  | .double x => .double (f x)

/-- The reader takes the numbers of a value such as reading gives: integers as they were, and
doubles as doubles. -/
theorem exists_readsNumbers {x : Json} (h : x.Clean) :
    ∃ f, Reader.ReadsNumbers (mapDouble f) x := by
  choose f hf using Reader.exists_readsAs_double
  refine ⟨f, Everywhere.imp ?_ x h⟩
  intro node hnode n hn
  cases n with
  | int i => exact Reader.rereads_of_isInteger64 (hnode.2 i hn)
  | double y => exact hf y

/-- What the tool prints is the document that the patch leaves, and it can be read exactly if at
most 127 containers are nested in that document.  If more are nested, the text is refused for
that. -/
theorem parse_output_iff {document patch out : String} (h : applyPatch document patch = .ok out) :
    ∃ result, patched document patch = .ok result ∧ out = result.pretty ∧
      ((∃ y, Json.parse out = .ok y) ↔ result.depth ≤ 127) ∧
      (127 < result.depth → ∃ e, Json.parse out = .error e ∧ e.fault = .tooDeep) := by
  rw [applyPatch_eq_map] at h
  obtain ⟨result, hresult, hout⟩ := map_eq_ok_iff.mp h
  have hclean := clean_of_patched hresult
  have hdistinct := hclean.distinctNames
  obtain ⟨f, hnumbers⟩ := exists_readsNumbers hclean
  have hparse : Json.parse out = parseChars (text .indented 0 result) := by
    rw [← hout, Json.parse, pretty, String.toList_ofList]
  have htooDeep : 127 < result.depth → ∃ e, Json.parse out = .error e ∧ e.fault = .tooDeep := by
    intro hdeep
    rw [hparse]
    exact parseChars_text_tooDeep .indented hdistinct hnumbers hdeep
  refine ⟨result, hresult, hout.symm, ⟨?_, ?_⟩, htooDeep⟩
  · intro hread
    obtain ⟨y, hy⟩ := hread
    by_contra hdeep
    obtain ⟨e, he, -⟩ := htooDeep (Nat.lt_of_not_le hdeep)
    rw [he] at hy
    cases hy
  · intro hfits
    rw [hparse]
    exact ⟨_, parseChars_text_of_readsNumbers .indented hdistinct hnumbers hfits⟩

/-- A list with a double is copied to its own end. -/
theorem parse_output_iff_copy_of_double :
    applyPatch "[1.5]" "[\x7b\"op\":\"copy\",\"path\":\"/-\",\"from\":\"\"\x7d]" =
      .ok "[\n  1.5,\n  [\n    1.5\n  ]\n]" ∧
    ∃ y, Json.parse "[\n  1.5,\n  [\n    1.5\n  ]\n]" = .ok y := by
  have hrun : applyPatch "[1.5]" "[\x7b\"op\":\"copy\",\"path\":\"/-\",\"from\":\"\"\x7d]" =
      .ok "[\n  1.5,\n  [\n    1.5\n  ]\n]" := by decide +kernel
  have hleft : patched "[1.5]" "[\x7b\"op\":\"copy\",\"path\":\"/-\",\"from\":\"\"\x7d]" =
      .ok (array [number (.double ⟨false, 0x3FF8000000000000, by decide⟩),
        array [number (.double ⟨false, 0x3FF8000000000000, by decide⟩)]]) := by decide +kernel
  obtain ⟨result, hresult, -, hread, -⟩ := parse_output_iff hrun
  obtain rfl := Except.ok.inj (hleft.symm.trans hresult)
  exact ⟨hrun, hread.mpr (by decide)⟩

/-! ## A document that is too deep -/

/-- Arrays inside an array, so many, with nothing in the innermost. -/
def nested : Nat → Json
  | 0 => array []
  | n + 1 => array [nested n]

/-- A document with as many containers as the reader takes is copied into itself, and what is
printed cannot be read again. -/
theorem output_too_deep_after_copy :
    ∃ out, applyPatch (nested 126).compact
        "[\x7b\"op\":\"copy\",\"path\":\"/-\",\"from\":\"\"\x7d]" = .ok out ∧
      ¬ ∃ y, Json.parse out = .ok y := by
  have hdocument : Json.parse (nested 126).compact = .ok (nested 126) := by
    have hintegers : (nested 126).Integers64 := by decide +kernel
    rw [Json.parse, compact, String.toList_ofList]
    exact parseChars_text .compact (by decide +kernel) hintegers.rereadsNumbers
      (by decide +kernel)
  have hleft : patched (nested 126).compact
      "[\x7b\"op\":\"copy\",\"path\":\"/-\",\"from\":\"\"\x7d]" =
      .ok (array [nested 125, nested 126]) := by
    unfold patched
    rw [hdocument]
    decide +kernel
  refine ⟨(array [nested 125, nested 126]).pretty, ?_, ?_⟩
  · rw [applyPatch_eq_map, hleft]
    rfl
  · have hintegers : (array [nested 125, nested 126]).Integers64 := by decide +kernel
    obtain ⟨e, he, -⟩ := parseChars_text_tooDeep .indented
      (by decide +kernel : (array [nested 125, nested 126]).DistinctNames)
      hintegers.rereadsNumbers (by decide +kernel)
    intro hread
    obtain ⟨y, hy⟩ := hread
    rw [Json.parse, pretty, String.toList_ofList, he] at hy
    cases hy

end JsonEdit.Command
