import JsonEdit.Proofs.Pointer.Canonical

/-!
# Strict reading of written pointers

Strict reading accepts a text only if it is the text of its pointer
(`render_of_parseWithin`).  The other way round, the text of a pointer starts with a slash
and is escaped, so nothing but its length can be wrong with it: `parseWithin_render` reads
a written pointer under any limits.  The length is that of the whole text in bytes, and the
number of steps is the number of slashes in it.
-/

namespace JsonEdit

/-- The size that the limits count is that of the text in UTF-8. -/
theorem Text.byteSize_eq_utf8ByteSize (cs : List Char) :
    Text.byteSize cs = (String.ofList cs).utf8ByteSize := by
  induction cs with
  | nil => rfl
  | cons c rest ih =>
    rw [Text.byteSize, ih, String.ofList_cons, String.utf8ByteSize_append,
      String.utf8ByteSize_singleton]

namespace Pointer

/-- A text that strict reading accepts is the text of its pointer. -/
theorem render_of_parseWithin {limits : Limits} {s : String} {p : Pointer}
    (h : parseWithin limits s = .ok p) : p.render = s := by
  obtain ⟨hvalid, rfl⟩ := parseWithin_eq_ok_iff.mp h
  rw [← String.toList_inj, render, String.toList_ofList]
  refine text_compileChars_iff.mpr ((validate_eq_ok_iff.mp hvalid).imp_right ?_)
  rintro ⟨hslash, -, -, hescaped⟩
  exact ⟨hslash, hescaped⟩

/-- Each step of a pointer puts one slash into its text. -/
theorem count_slash_text (p : Pointer) : p.text.count '/' = p.length := by
  induction p with
  | nil => rfl
  | cons step rest ih =>
    rw [text_cons, List.count_append, List.count_cons_self, ih,
      List.count_eq_zero_of_not_mem step.slash_not_mem_text, List.length_cons]
    omega

/-- The bound that a written pointer breaks, the bound on its bytes before that on its steps. -/
def excess? (limits : Limits) (p : Pointer) : Option Invalid :=
  if limits.bytes < p.render.utf8ByteSize then some .tooLong
  else if limits.steps < p.length then some .tooManySteps
  else none

theorem excess?_eq_none_iff {limits : Limits} {p : Pointer} :
    p.excess? limits = none ↔ p.length ≤ limits.steps ∧ p.render.utf8ByteSize ≤ limits.bytes := by
  unfold excess?
  split_ifs <;> simp <;> omega

theorem excess?_eq_some_iff {limits : Limits} {p : Pointer} {cause : Invalid} :
    p.excess? limits = some cause ↔
      (limits.bytes < p.render.utf8ByteSize ∧ cause = .tooLong) ∨
        (p.render.utf8ByteSize ≤ limits.bytes ∧ limits.steps < p.length ∧
          cause = .tooManySteps) := by
  unfold excess?
  split_ifs with hbytes hsteps
  · simp [hbytes, Nat.not_le_of_lt hbytes, eq_comm]
  · simp [hbytes, Nat.le_of_not_lt hbytes, hsteps, eq_comm]
  · simp [hbytes, hsteps]

/-- What strict reading says of a written pointer. -/
theorem validate_text (limits : Limits) (p : Pointer) :
    validate limits p.text =
      match p.excess? limits with
      | some cause => .error cause
      | none => .ok () := by
  have hescaped : strayTilde? 0 p.text = none := (strayTilde?_eq_none_iff 0).mpr p.escaped_text
  have hbytes : Text.byteSize p.text = p.render.utf8ByteSize := Text.byteSize_eq_utf8ByteSize _
  have hslashes : p.text.count '/' = p.length := p.count_slash_text
  unfold excess?
  cases p with
  | nil => rfl
  | cons step rest =>
    have htext : text (step :: rest) = '/' :: (step.text ++ text rest) := rfl
    rw [htext] at hescaped hbytes hslashes ⊢
    rw [validate, if_neg (by decide), hbytes, hslashes, hescaped]
    split_ifs <;> rfl

/-- A written pointer is read step by step unless it breaks a bound. -/
theorem parseWithin_render (limits : Limits) (p : Pointer) :
    parseWithin limits p.render =
      match p.excess? limits with
      | some cause => .error cause
      | none => .ok (p.map Step.reread) := by
  have hcompile : compileChars p.text = p.map Step.reread := by
    rw [← compile_render, compile, render, String.toList_ofList]
  rw [parseWithin, parseChars, render, String.toList_ofList, validate_text, hcompile]
  cases p.excess? limits <;> rfl

end Pointer

end JsonEdit
