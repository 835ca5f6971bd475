import JsonEdit.Proofs.Pointer.Canonical

/-!
# Ancestors as text

Whether one place is inside another one can be seen from their texts: the text of the inner one
goes on behind the text of the outer one, and goes on with a slash.  Two facts make that so.  No
segment has a slash in it, so a slash always ends one, and a name that another name begins with
is not taken for it.  And the steps of a pointer that was read from a text can be read again from
its own text, so equal texts are equal steps.

There are three groups.

* Steps below.  `isBelow_iff` says which steps lead on from a pointer.
* Texts.  What stands behind the text of a pointer and a slash is cut into further segments
  (`map_text_of_text_append`).
* Pointers of texts.  They carry the proof that they come back from their text, so the texts
  decide what the pointers are (`TextPointer.isBelow_iff_text`), and
  `ancestors_are_text_prefixes` is the assembly.
-/

namespace JsonEdit.Pointer

/-! ## Steps below -/

/-- A pointer is below another one if it has further steps. -/
theorem isBelow_iff {p q : Pointer} :
    p.isBelow q = true ↔ ∃ step rest, p = q ++ step :: rest := by
  rw [isBelow, Bool.and_eq_true, decide_eq_true_eq, startsWith_iff]
  constructor
  · intro h
    rcases h with ⟨hlength, rest, hrest⟩
    cases rest with
    | nil => simp [hrest] at hlength
    | cons step rest => exact ⟨step, rest, hrest⟩
  · intro h
    rcases h with ⟨step, rest, hrest⟩
    exact ⟨by simp [hrest], step :: rest, hrest⟩

/-- A pointer starts with another one if it is that one or below it. -/
theorem startsWith_iff_eq_or_isBelow {p q : Pointer} :
    p.startsWith q = true ↔ p = q ∨ p.isBelow q = true := by
  rw [startsWith_iff, isBelow_iff]
  constructor
  · intro h
    rcases h with ⟨rest, hrest⟩
    cases rest with
    | nil => exact .inl (by simpa using hrest)
    | cons step rest => exact .inr ⟨step, rest, hrest⟩
  · intro h
    rcases h with heq | ⟨step, rest, hrest⟩
    · exact ⟨[], by simpa using heq⟩
    · exact ⟨step :: rest, hrest⟩

/-! ## Texts -/

/-- What stands behind the text of a pointer and a slash is cut into further segments. -/
theorem map_text_of_text_append {p q : Pointer} {rest : List Char}
    (h : p.text = q.text ++ '/' :: rest) :
    p.map Step.text = q.map Step.text ++ rest.splitOn '/' := by
  have hsegments : (p.map Step.text).flatMap ('/' :: ·) =
      (q.map Step.text ++ rest.splitOn '/').flatMap ('/' :: ·) := by
    rw [List.flatMap_append, flatMap_splitOn, ← text_eq_flatMap_map, ← text_eq_flatMap_map, h]
  refine eq_of_flatMap_slash_eq (fun _ => slash_not_mem_of_mem_map_text) ?_ hsegments
  intro segment hsegment
  rcases List.mem_append.mp hsegment with hstep | hrest
  · exact slash_not_mem_of_mem_map_text hstep
  · exact slash_not_mem_of_mem_splitOn hrest

/-- The text of a pointer below another one goes on behind the text of that one. -/
theorem text_append_cons (q : Pointer) (step : Step) (rest : Pointer) :
    text (q ++ step :: rest) = q.text ++ '/' :: (step.text ++ text rest) := by
  rw [text_append, text_cons, List.cons_append]

theorem render_eq_iff {p q : Pointer} : p.render = q.render ↔ p.text = q.text := by
  rw [render, render, String.ofList_inj]

/-- A text that goes on behind the text of a pointer with a slash. -/
theorem render_eq_append_iff {p q : Pointer} :
    (∃ rest, p.render = q.render ++ "/" ++ rest) ↔ ∃ rest, p.text = q.text ++ '/' :: rest := by
  constructor
  · intro h
    rcases h with ⟨rest, hrest⟩
    refine ⟨rest.toList, ?_⟩
    have hchars := congrArg String.toList hrest
    simpa [render, String.toList_append] using hchars
  · intro h
    rcases h with ⟨rest, hrest⟩
    refine ⟨String.ofList rest, ?_⟩
    rw [← String.toList_inj]
    simpa [render, String.toList_append] using hrest

/-! ## Pointers of texts -/

namespace TextPointer

variable (p q : TextPointer)

/-- A pointer that text can carry is read off the segments of its text. -/
theorem map_classify_map_text : (p.1.map Step.text).map Step.classify = p.1 := by
  rw [List.map_map]
  exact map_reread_eq_self_iff.mpr p.2

theorem eq_iff_text_eq : p.1 = q.1 ↔ p.1.text = q.1.text := by
  constructor
  · intro h
    rw [h]
  · intro h
    rw [← p.map_classify_map_text, map_text_eq_of_text_eq h, q.map_classify_map_text]

theorem isBelow_iff_text : p.1.isBelow q.1 = true ↔ ∃ rest, p.1.text = q.1.text ++ '/' :: rest := by
  rw [isBelow_iff]
  constructor
  · intro h
    rcases h with ⟨step, rest, hrest⟩
    exact ⟨_, by rw [hrest, text_append_cons]⟩
  · intro h
    rcases h with ⟨rest, hrest⟩
    have hsteps : p.1 = q.1 ++ (rest.splitOn '/').map Step.classify := by
      rw [← p.map_classify_map_text, map_text_of_text_append hrest, List.map_append,
        q.map_classify_map_text]
    rcases List.exists_cons_of_ne_nil (List.splitOn_ne_nil '/' rest) with ⟨first, others, hsplit⟩
    rw [hsplit, List.map_cons] at hsteps
    exact ⟨_, _, hsteps⟩

end TextPointer

/-- The pointers of any two texts are related as the texts of these pointers are.  They are the
same if these are the same, one starts with the other if its text is the text of the other one or
goes on behind it with a slash, and it is below the other one if its text goes on behind it with
a slash.  Below the root is every pointer with a text that is not empty. -/
theorem ancestors_are_text_prefixes (s t : String) :
    (compile s = compile t ↔ (compile s).render = (compile t).render) ∧
      ((compile s).startsWith (compile t) = true ↔
        (compile s).render = (compile t).render ∨
          ∃ rest, (compile s).render = (compile t).render ++ "/" ++ rest) ∧
      ((compile s).isBelow (compile t) = true ↔
        ∃ rest, (compile s).render = (compile t).render ++ "/" ++ rest) ∧
      ((compile s).isBelow [] = true ↔ (compile s).render ≠ "") := by
  have hsame : compile s = compile t ↔ (compile s).render = (compile t).render := by
    rw [render_eq_iff]
    exact (TextPointer.ofText s).eq_iff_text_eq (TextPointer.ofText t)
  have hbelow : (compile s).isBelow (compile t) = true ↔
      ∃ rest, (compile s).render = (compile t).render ++ "/" ++ rest := by
    rw [render_eq_append_iff]
    exact (TextPointer.ofText s).isBelow_iff_text (TextPointer.ofText t)
  refine ⟨hsame, ?_, hbelow, ?_⟩
  · rw [startsWith_iff_eq_or_isBelow, hsame, hbelow]
  · cases compile s with
    | nil => simp [isBelow, render]
    | cons step rest => simp [isBelow, startsWith, render]

/-- A name with a slash in it is below the name in front of it.  A longer name is not below a name
that it begins with, nor is anything in it. -/
theorem ancestors_are_text_prefixes_of_one_name :
    compile "/a" = compile "a" ∧
      (compile "/a/~1b").isBelow (compile "a") = true ∧
      ¬ (compile "/ab/c").isBelow (compile "a") = true ∧
      (compile "/ab/c").isBelow [] = true := by
  refine ⟨(ancestors_are_text_prefixes "/a" "a").1.mpr rfl, ?_, ?_, ?_⟩
  · exact (ancestors_are_text_prefixes "/a/~1b" "a").2.2.1.mpr ⟨"~1b", rfl⟩
  · intro hbelow
    obtain ⟨rest, hrest⟩ := (ancestors_are_text_prefixes "/ab/c" "a").2.2.1.mp hbelow
    have hchars : "/ab/c".toList = "/a/".toList ++ rest.toList := by
      rw [← String.toList_append]
      exact congrArg String.toList hrest
    have hthird : some 'b' = some '/' := congrArg (·[2]?) hchars
    exact absurd hthird (by decide)
  · exact (ancestors_are_text_prefixes "/ab/c" "").2.2.2.mpr (by decide)

end JsonEdit.Pointer
