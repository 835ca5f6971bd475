import JsonEdit.Command
import JsonEdit.Proofs.Command.Pipe
import JsonEdit.Proofs.Json.Margin

/-!
# White space around a document

A tool removes the blanks around its input before it reads the document there.  That changes
nothing for a text that can be read as it is: its value is the same (`Json.parse_trim`), and the
document's text is used for nothing but to be read.

There are two groups.

* Trimming.  `action_congr` says that a tool uses the value of its document only, and
  `run_eq_map_action` is what follows for a document that can be read.
* Blanks around the input.  They are removed with those that the input has (`run_surround`).
-/

namespace JsonEdit.Command

/-! ## Trimming -/

/-- Documents with the same value are the same to a tool. -/
theorem action_congr {s t : String} (h : Json.parse s = Json.parse t) (tool : Tool)
    (argument : String) : tool.action s argument = tool.action t argument := by
  cases tool with
  | patch => rw [Tool.action, applyPatch, applyPatch, h]
  | pointer => rw [Tool.action, lookupPointer, lookupPointer, h]

/-- What a run does with a document that can be read as it is. -/
theorem run_eq_map_action {document : String} {doc : Json}
    (hdocument : Json.parse document = .ok doc) (tool : Tool) (argument : String) :
    run tool (some argument) document.toUTF8 =
      (tool.action document argument).map (· ++ "\n") := by
  have hparse : Json.parse (Text.trim document) = Json.parse document := by
    rw [hdocument]
    exact Json.parse_trim hdocument
  rw [run_some, action_congr hparse]

/-! ## Blanks around the input -/

/-- Blanks around an input change nothing, whether it can be read or not. -/
theorem run_surround (tool : Tool) (argument : Option String) (document : String)
    {front back : String} (hfront : Text.allBlank front.toList = true)
    (hback : Text.allBlank back.toList = true) :
    run tool argument (front ++ document ++ back).toUTF8 = run tool argument document.toUTF8 := by
  cases argument with
  | none => rfl
  | some argument =>
    have htrim : Text.trim (front ++ document ++ back) = Text.trim document := by
      rw [Text.trim, Text.trim, String.toList_append, String.toList_append,
        Text.trimChars_surround hfront hback]
    rw [run_some, run_some, htrim]

/-- Trimming does not change what a tool does with a document that can be read as it is.  If the
tool has a result for document and argument, the result and a line break are written.  If it
fails, the run fails with the same error and writes nothing.  Blanks around the document change
nothing. -/
theorem run_readable_document {document : String} {doc : Json}
    (hdocument : Json.parse document = .ok doc) (tool : Tool) (argument : String) :
    (∀ text, tool.action document argument = .ok text →
      run tool (some argument) document.toUTF8 = .ok (text ++ "\n") ∧
      exit tool (some argument) document.toUTF8 = ⟨0, text ++ "\n", ""⟩) ∧
    (∀ e, tool.action document argument = .error e →
      run tool (some argument) document.toUTF8 = .error e ∧
      exit tool (some argument) document.toUTF8 = ⟨1, "", e.message ++ "\n"⟩) ∧
    (∀ (front back : String) (given : Option String), Text.allBlank front.toList = true →
      Text.allBlank back.toList = true →
      run tool given (front ++ document ++ back).toUTF8 = run tool given document.toUTF8) := by
  have hrun := run_eq_map_action hdocument tool argument
  refine ⟨?_, ?_, ?_⟩
  · intro text hok
    rw [hok] at hrun
    exact ⟨hrun, by rw [exit, hrun]; rfl⟩
  · intro e herror
    rw [herror] at hrun
    exact ⟨hrun, by rw [exit, hrun]; rfl⟩
  · intro front back given hfront hback
    exact run_surround tool given document hfront hback

/-- An array with blanks around it, some of which the reader would refuse: an item is found, and
one that is missing is reported; a patch takes an item away, and a value that is no patch is
reported. -/
theorem run_readable_document_between_wide_spaces :
    run .pointer (some "/1") ("\u2003" ++ "\t[1, 2]\n" ++ "\u0085").toUTF8 = .ok "2\n" ∧
    exit .pointer (some "/2") "\t[1, 2]\n".toUTF8 =
      ⟨1, "", "NOT_FOUND: no value at \"/2\"\n"⟩ ∧
    run .patch (some "[\x7b\"op\":\"remove\",\"path\":\"/0\"\x7d]")
      ("\u2003" ++ "\t[1, 2]\n" ++ "\u0085").toUTF8 = .ok "[\n  2\n]\n" ∧
    exit .patch (some "7") "\t[1, 2]\n".toUTF8 =
      ⟨1, "", "INVALID_OP: patch must be an array\n"⟩ := by
  have hdocument : Json.parse "\t[1, 2]\n" = .ok (.array [.ofInt 1, .ofInt 2]) := rfl
  have hmessage : (Error.pointer (.notFound [.index 2])).message ++ "\n" =
      "NOT_FOUND: no value at \"/2\"\n" := by decide +kernel
  have hrefusal : (Error.patch (.malformed .patchNotArray)).message ++ "\n" =
      "INVALID_OP: patch must be an array\n" := by decide +kernel
  obtain ⟨hfound, -, hsurround⟩ := run_readable_document hdocument .pointer "/1"
  obtain ⟨-, hmissing, -⟩ := run_readable_document hdocument .pointer "/2"
  obtain ⟨hpatched, -, hpatchsurround⟩ :=
    run_readable_document hdocument .patch "[\x7b\"op\":\"remove\",\"path\":\"/0\"\x7d]"
  obtain ⟨-, hrefused, -⟩ := run_readable_document hdocument .patch "7"
  refine ⟨?_, ?_, ?_, ?_⟩
  · rw [hsurround "\u2003" "\u0085" (some "/1") rfl rfl]
    exact (hfound "2" (by decide +kernel)).1
  · rw [← hmessage]
    exact (hmissing (.pointer (.notFound [.index 2])) (by decide +kernel)).2
  · rw [hpatchsurround "\u2003" "\u0085" _ rfl rfl]
    exact (hpatched "[\n  2\n]" (by decide +kernel)).1
  · rw [← hrefusal]
    exact (hrefused (.patch (.malformed .patchNotArray)) (by decide +kernel)).2

end JsonEdit.Command
