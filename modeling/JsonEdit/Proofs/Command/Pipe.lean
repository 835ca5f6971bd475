import JsonEdit.Command
import JsonEdit.Proofs.Json.Outline
import JsonEdit.Proofs.Json.Read
import JsonEdit.Proofs.Json.RoundTrip
import JsonEdit.Proofs.Patch.Provenance

/-!
# Patches in a pipe

The tool writes the document that a patch left, and can read it again to apply another one.
Nothing is lost on the way, so two runs in a pipe do what one run does with both patches, one
behind the other.

There are four groups.

* Patches.  A patch in two parts is read and applied part by part.
* Runs.  `run_of_parse` says what a run does once document and patch are read.
* The pipe.  What the tool wrote is trimmed and read to the document that was written, as long
  as its numbers are integers and its containers are not nested too deep for the reader.
* The whole law.  The document that the first patch left is one that can be written and read:
  its names are distinct and its integers have 64 bits, because that is so of all that was read.
-/

namespace JsonEdit

/-! ## Patches -/

namespace Patch

/-- The operations that the items of an array stand for, applied to a document. -/
def applyItems (doc : Json) (items : List Json) : Except Error Json :=
  (ofItems items).bind (applyAll doc)

theorem applyItems_eq_ok_iff {doc out : Json} {items : List Json} :
    applyItems doc items = .ok out ↔ ∃ ops, ofItems items = .ok ops ∧ applyAll doc ops = .ok out := by
  rw [applyItems]
  cases ofItems items with
  | error e => simp [Except.bind]
  | ok ops => simp [Except.bind]

theorem ofItems_append (items later : List Json) :
    ofItems (items ++ later) = (ofItems items).bind fun ops => (ofItems later).map (ops ++ ·) := by
  induction items with
  | nil =>
    show ofItems later = (ofItems later).map ([] ++ ·)
    cases ofItems later <;> rfl
  | cons item rest ih =>
    rw [List.cons_append, ofItems_cons, ofItems_cons, ih]
    cases Op.ofJson item with
    | error e => rfl
    | ok op =>
      cases ofItems rest with
      | error e => rfl
      | ok ops =>
        show ((ofItems later).map _).map _ = (ofItems later).map _
        cases ofItems later <;> rfl

/-- Once the first part of a patch is applied, the second one is applied to what it left. -/
theorem applyItems_append {doc out : Json} {items : List Json}
    (h : applyItems doc items = .ok out) (later : List Json) :
    applyItems doc (items ++ later) = applyItems out later := by
  obtain ⟨ops, hops, hfirst⟩ := applyItems_eq_ok_iff.mp h
  unfold applyItems
  rw [ofItems_append, hops]
  cases ofItems later with
  | error e => rfl
  | ok others =>
    show applyAll doc (ops ++ others) = applyAll out others
    rw [applyAll_append, hfirst]
    rfl

end Patch

namespace Command

open Json

/-! ## Runs -/

theorem fromUTF8?_toUTF8 (s : String) : String.fromUTF8? s.toUTF8 = some s := by
  unfold String.fromUTF8?
  rw [String.toUTF8_eq_toByteArray, dif_pos s.isValidUTF8]
  rfl

/-- A run on an input that is text. -/
theorem run_some (tool : Tool) (argument document : String) :
    run tool (some argument) document.toUTF8 =
      (tool.action (Text.trim document) argument).map (· ++ "\n") := by
  rw [run, fromUTF8?_toUTF8]

theorem applyPatch_of_parse {document patch : String} {doc : Json} {items : List Json}
    (hdocument : Json.parse document = .ok doc) (hpatch : Json.parse patch = .ok (array items)) :
    applyPatch document patch =
      ((Patch.applyItems doc items).mapError .patch).map Json.pretty := by
  rw [applyPatch, hdocument, hpatch, Patch.applyItems]
  show ((Patch.ofItems items).mapError Error.patch).bind
      (fun ops => ((Patch.applyAll doc ops).mapError Error.patch).bind fun out => .ok out.pretty) = _
  cases Patch.ofItems items with
  | error e => rfl
  | ok ops =>
    show ((Patch.applyAll doc ops).mapError Error.patch).bind _ =
      ((Patch.applyAll doc ops).mapError Error.patch).map _
    cases Patch.applyAll doc ops <;> rfl

/-- What a run writes once its document and its patch are read. -/
theorem run_of_parse {document patch : String} {doc : Json} {items : List Json}
    (hdocument : Json.parse (Text.trim document) = .ok doc)
    (hpatch : Json.parse patch = .ok (array items)) :
    run .patch (some patch) document.toUTF8 =
      ((Patch.applyItems doc items).mapError .patch).map fun out => out.pretty ++ "\n" := by
  rw [run_some, Tool.action, applyPatch_of_parse hdocument hpatch]
  cases Patch.applyItems doc items <;> rfl

/-- A run that writes something has applied its patch and writes what that left. -/
theorem exists_of_run_eq_ok {document patch written : String} {doc : Json} {items : List Json}
    (hdocument : Json.parse (Text.trim document) = .ok doc)
    (hpatch : Json.parse patch = .ok (array items))
    (h : run .patch (some patch) document.toUTF8 = .ok written) :
    ∃ out, Patch.applyItems doc items = .ok out ∧ written = out.pretty ++ "\n" := by
  rw [run_of_parse hdocument hpatch] at h
  obtain ⟨out, hout, htext⟩ := map_eq_ok_iff.mp h
  exact ⟨out, mapError_eq_ok_iff.mp hout, htext.symm⟩

/-! ## The pipe -/

/-- The characters of what is written: the text of the value, and a line break. -/
theorem toList_pretty_append (x : Json) :
    (x.pretty ++ "\n").toList = [] ++ text .indented 0 x ++ ['\n'] := by
  rw [String.toList_append, pretty, String.toList_ofList]
  rfl

/-- What is written is trimmed and read to the value that was written. -/
theorem parse_trim_pretty {x : Json} (hdistinct : x.DistinctNames) (hintegers : x.Integers64)
    (hfits : x.depth ≤ Reader.greatestDepth) :
    Json.parse (Text.trim (x.pretty ++ "\n")) = .ok x := by
  have htight : Text.Tight (text .indented 0 x) := tight_text .indented 0 hintegers
  rw [Json.parse, Text.trim, String.toList_ofList, toList_pretty_append,
    Text.trimChars_surround rfl rfl, Text.trimChars_of_tight htight]
  exact parseChars_text .indented hdistinct hintegers.rereadsNumbers hfits

/-- The brackets of what is written are nested as the containers of the value are. -/
theorem nesting_pretty {x : Json} (hintegers : x.Integers64) :
    nesting (x.pretty ++ "\n") = x.depth := by
  rw [nesting, toList_pretty_append, List.nil_append, nestingFrom_text .indented x 0 0 _ hintegers,
    Nat.zero_add]
  exact Nat.max_eq_left (Nat.zero_le _)

/-! ## The whole law -/

/-- The document that a patch leaves has distinct names and integers of 64 bits if the texts of
the document and of the patch have integers only. -/
theorem writable_of_applyItems {document patch : String} {doc out : Json} {items : List Json}
    (hdocument : Json.parse document = .ok doc) (hpatch : Json.parse patch = .ok (array items))
    (hdoc : doc.Integers) (hitems : (array items).Integers)
    (h : Patch.applyItems doc items = .ok out) : out.DistinctNames ∧ out.Integers64 := by
  obtain ⟨ops, hops, happly⟩ := Patch.applyItems_eq_ok_iff.mp h
  have hclean := Patch.clean_of_applyAll (clean_of_parse hdocument) (clean_of_parse hpatch) hops
    happly
  have hintegers := Patch.integers_of_applyAll hdoc hitems hops happly
  exact ⟨hclean.distinctNames, hclean.integers64 hintegers⟩

/-- Two runs in a pipe do what one run does with the items of both patches.  If the numbers of
the document and of the first patch are integers, and what the first run wrote is nested at most
as deep as the reader goes, then the second run on it writes what the single run writes, or fails
with the same error. -/
theorem run_pipe_eq_run_append {s a b ab written : String} {doc : Json} {xs ys : List Json}
    (hs : Json.parse (Text.trim s) = .ok doc) (ha : Json.parse a = .ok (array xs))
    (hb : Json.parse b = .ok (array ys)) (hab : Json.parse ab = .ok (array (xs ++ ys)))
    (hdoc : doc.Integers) (hxs : (array xs).Integers)
    (hwritten : run .patch (some a) s.toUTF8 = .ok written) (hnesting : nesting written ≤ 127) :
    run .patch (some b) written.toUTF8 = run .patch (some ab) s.toUTF8 := by
  obtain ⟨out, hout, htext⟩ := exists_of_run_eq_ok hs ha hwritten
  obtain ⟨hdistinct, hintegers⟩ := writable_of_applyItems hs ha hdoc hxs hout
  rw [htext] at hnesting ⊢
  rw [nesting_pretty hintegers] at hnesting
  have hreread := parse_trim_pretty hdistinct hintegers hnesting
  rw [run_of_parse hreread hb, run_of_parse hs hab, Patch.applyItems_append hout]

/-- A list is added, and then a member is moved to its end.  The first run writes the document
between the two, and the second run and the single run write the same four lines. -/
theorem run_pipe_eq_run_append_add_and_move :
    run .patch (some (array [(Op.add [.key "list"] (array [ofInt 2])).toJson]).compact)
        (" " ++ (object [("n", ofInt 1)]).compact).toUTF8 =
      .ok ((object [("n", ofInt 1), ("list", array [ofInt 2])]).pretty ++ "\n") ∧
    run .patch (some (array [(Op.move [.key "list", .pastEnd] [.key "n"]).toJson]).compact)
        ((object [("n", ofInt 1), ("list", array [ofInt 2])]).pretty ++ "\n").toUTF8 =
      run .patch
        (some (array [(Op.add [.key "list"] (array [ofInt 2])).toJson,
          (Op.move [.key "list", .pastEnd] [.key "n"]).toJson]).compact)
        (" " ++ (object [("n", ofInt 1)]).compact).toUTF8 ∧
    run .patch
        (some (array [(Op.add [.key "list"] (array [ofInt 2])).toJson,
          (Op.move [.key "list", .pastEnd] [.key "n"]).toJson]).compact)
        (" " ++ (object [("n", ofInt 1)]).compact).toUTF8 =
      .ok "\x7b\n  \"list\": [\n    2,\n    1\n  ]\n\x7d\n" := by
  have hs : Json.parse (Text.trim (" " ++ (object [("n", ofInt 1)]).compact)) =
      .ok (object [("n", ofInt 1)]) := rfl
  have ha : Json.parse (array [(Op.add [.key "list"] (array [ofInt 2])).toJson]).compact =
      .ok (array [(Op.add [.key "list"] (array [ofInt 2])).toJson]) := rfl
  have hb : Json.parse
        (array [(Op.move [.key "list", .pastEnd] [.key "n"]).toJson]).compact =
      .ok (array [(Op.move [.key "list", .pastEnd] [.key "n"]).toJson]) := rfl
  have hab : Json.parse (array [(Op.add [.key "list"] (array [ofInt 2])).toJson,
        (Op.move [.key "list", .pastEnd] [.key "n"]).toJson]).compact =
      .ok (array ([(Op.add [.key "list"] (array [ofInt 2])).toJson] ++
        [(Op.move [.key "list", .pastEnd] [.key "n"]).toJson])) := rfl
  have hdoc : (object [("n", ofInt 1)]).Integers := Integers64.integers (by decide)
  have hxs : (array [(Op.add [.key "list"] (array [ofInt 2])).toJson]).Integers :=
    Integers64.integers (by decide)
  have hnesting :
      nesting ((object [("n", ofInt 1), ("list", array [ofInt 2])]).pretty ++ "\n") ≤ 127 := by
    decide +kernel
  have hfirst := (run_of_parse hs ha).trans rfl
  have htext : (object [("list", array [ofInt 2, ofInt 1])]).pretty ++ "\n" =
      "\x7b\n  \"list\": [\n    2,\n    1\n  ]\n\x7d\n" := by decide +kernel
  have hsingle := (run_of_parse hs hab).trans (congrArg Except.ok htext)
  exact ⟨hfirst, run_pipe_eq_run_append hs ha hb hab hdoc hxs hfirst hnesting, hsingle⟩

end Command

end JsonEdit
