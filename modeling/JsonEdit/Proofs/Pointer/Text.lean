import JsonEdit.Pointer.Strict
import JsonEdit.Proofs.Pointer.Escape
import Mathlib.Tactic.SplitIfs

/-!
# Pointers and their text

Every text has a pointer, but not every text is the text of one.  The texts that come back
from their pointer are the empty one and those that start with a slash and are escaped
(`render_compile_eq_iff`).  Three facts meet there: the segments of a text, each behind a
slash, make up the text (`flatMap_splitOn`); a segment is the text of its step exactly if
it is the written form of a name (`Step.text_classify_iff`); and no escape reaches across
a slash.  Strict reading accepts texts of this form only (`validate_eq_ok_iff`).
-/

namespace JsonEdit

open Pointer

/-! ## The text of a step -/

namespace Step

theorem not_mem_decimal {c : Char} (hc : c.isDigit = false) (n : Nat) : c ∉ Text.decimal n := by
  intro h
  simp [Text.isDigit_of_mem_decimal h] at hc

theorem slash_not_mem_text (step : Step) : '/' ∉ step.text := by
  cases step with
  | index n => exact not_mem_decimal (by decide) n
  | key name => exact slash_not_mem_escape _
  | pastEnd => decide

theorem escaped_text (step : Step) : Escaped step.text := by
  cases step with
  | index n => exact escaped_of_not_mem (not_mem_decimal (by decide) n)
  | key name => exact escaped_escape _
  | pastEnd => exact escaped_of_not_mem (by decide)

/-- A segment is the text of its step exactly if it is the written form of a name, also
where it is read as an index or as the place behind the last item. -/
theorem text_classify_iff {segment : List Char} :
    (classify segment).text = segment ↔ '/' ∉ segment ∧ Escaped segment := by
  constructor
  · intro h
    rw [← h]
    exact ⟨slash_not_mem_text _, escaped_text _⟩
  · rintro ⟨hslash, hescaped⟩
    unfold classify
    split
    · next hhyphen => exact hhyphen.symm
    · split
      · next hdecimal =>
        rw [Bool.and_eq_true] at hdecimal
        exact Text.decimal_decimalValue hdecimal.1
      · rw [text, String.toList_ofList]
        exact escape_unescape_iff.mpr ⟨hslash, hescaped⟩

end Step

namespace Pointer

/-! ## The text of a pointer -/

theorem text_eq_nil_or_head? (p : Pointer) : p.text = [] ∨ p.text.head? = some '/' := by
  cases p with
  | nil => exact .inl rfl
  | cons step rest => exact .inr rfl

theorem text_eq_flatMap_map (p : Pointer) : p.text = (p.map Step.text).flatMap ('/' :: ·) := by
  rw [text, List.flatMap_map]

theorem escaped_text (p : Pointer) : Escaped p.text := by
  rw [text_eq_flatMap_map, escaped_flatMap_iff]
  intro segment hsegment
  obtain ⟨step, -, rfl⟩ := List.mem_map.mp hsegment
  exact step.escaped_text

/-! ## Segments -/

theorem slash_not_mem_of_mem_splitOn {cs segment : List Char} (h : segment ∈ cs.splitOn '/') :
    '/' ∉ segment := by
  induction cs generalizing segment with
  | nil =>
    obtain rfl : segment = [] := by simpa using h
    exact List.not_mem_nil
  | cons c rest ih =>
    rw [List.splitOn_eq_splitOnP, List.splitOnP_cons_eq_if_modifyHead,
      ← List.splitOn_eq_splitOnP] at h
    split at h
    · obtain rfl | h := List.mem_cons.mp h
      · exact List.not_mem_nil
      · exact ih h
    · next hc =>
      obtain ⟨first, others, hsplit⟩ :=
        List.exists_cons_of_ne_nil (List.splitOn_ne_nil '/' rest)
      rw [hsplit] at ih h
      obtain rfl | h := List.mem_cons.mp h
      · have hc : c ≠ '/' := by simpa using hc
        exact List.not_mem_cons_of_ne_of_not_mem hc.symm (ih List.mem_cons_self)
      · exact ih (List.mem_cons_of_mem _ h)

/-- To write a slash in front of each segment is to write one in front of all of them and one
between any two. -/
theorem flatMap_eq_cons_intercalate {segments : List (List Char)} (hne : segments ≠ []) :
    segments.flatMap ('/' :: ·) = '/' :: ['/'].intercalate segments := by
  induction segments with
  | nil => exact absurd rfl hne
  | cons segment rest ih =>
    obtain _ | ⟨next, rest⟩ := rest
    · simp [List.intercalate_singleton]
    · rw [List.flatMap_cons, ih (List.cons_ne_nil _ _), List.intercalate_cons_cons]
      simp

/-- The segments of a text, each behind a slash, are the text behind a slash. -/
theorem flatMap_splitOn (cs : List Char) : (cs.splitOn '/').flatMap ('/' :: ·) = '/' :: cs := by
  rw [flatMap_eq_cons_intercalate (List.splitOn_ne_nil '/' cs), List.intercalate_splitOn]

/-- Segments without a slash can be told from their text. -/
theorem eq_of_flatMap_slash_eq {xs ys : List (List Char)} (hxs : ∀ x ∈ xs, '/' ∉ x)
    (hys : ∀ y ∈ ys, '/' ∉ y) (h : xs.flatMap ('/' :: ·) = ys.flatMap ('/' :: ·)) : xs = ys := by
  by_cases hempty : xs = [] ∨ ys = []
  · rcases hempty with hnil | hnil
    · cases ys with
      | nil => exact hnil
      | cons y ys => simp [hnil] at h
    · cases xs with
      | nil => exact hnil.symm
      | cons x xs => simp [hnil] at h
  · rw [not_or] at hempty
    rw [flatMap_eq_cons_intercalate hempty.1, flatMap_eq_cons_intercalate hempty.2] at h
    have htail := (List.cons.inj h).2
    rw [← List.splitOn_intercalate '/' hxs hempty.1, htail,
      List.splitOn_intercalate '/' hys hempty.2]

/-- No segment that is written for a step has a slash in it. -/
theorem slash_not_mem_of_mem_map_text {p : Pointer} {segment : List Char}
    (h : segment ∈ p.map Step.text) : '/' ∉ segment := by
  rcases List.mem_map.mp h with ⟨step, -, hstep⟩
  rw [← hstep]
  exact step.slash_not_mem_text

/-- Pointers that are written alike are written alike step by step. -/
theorem map_text_eq_of_text_eq {p q : Pointer} (h : p.text = q.text) :
    p.map Step.text = q.map Step.text := by
  rw [text_eq_flatMap_map, text_eq_flatMap_map] at h
  exact eq_of_flatMap_slash_eq (fun _ => slash_not_mem_of_mem_map_text)
    (fun _ => slash_not_mem_of_mem_map_text) h

/-- A text that starts with a slash is not blank, so it is cut into segments. -/
theorem compileChars_slash (rest : List Char) :
    compileChars ('/' :: rest) = (rest.splitOn '/').map Step.classify := by
  have hblank : Text.allBlank ('/' :: rest) = false := by
    have hslash : Text.isBlank '/' = false := by decide
    rw [Text.allBlank, List.all_cons, hslash, Bool.false_and]
  rw [compileChars, hblank, if_neg Bool.false_ne_true, segments]

theorem text_compileChars_slash {rest : List Char} (hescaped : Escaped rest) :
    (compileChars ('/' :: rest)).text = '/' :: rest := by
  have hall : ∀ segment ∈ rest.splitOn '/', Escaped segment := by
    rw [← escaped_flatMap_iff, flatMap_splitOn]
    exact (escaped_cons_of_ne (by decide)).mpr hescaped
  have hback : ((rest.splitOn '/').map Step.classify).map Step.text = rest.splitOn '/' := by
    rw [List.map_map]
    refine (List.map_congr_left fun segment hsegment => ?_).trans (List.map_id _)
    exact Step.text_classify_iff.mpr
      ⟨slash_not_mem_of_mem_splitOn hsegment, hall segment hsegment⟩
  rw [compileChars_slash, text_eq_flatMap_map, hback, flatMap_splitOn]

/-- The texts that come back from their pointer. -/
theorem text_compileChars_iff {cs : List Char} :
    (compileChars cs).text = cs ↔ cs = [] ∨ (cs.head? = some '/' ∧ Escaped cs) := by
  constructor
  · intro h
    have hshape := text_eq_nil_or_head? (compileChars cs)
    have hescaped := (compileChars cs).escaped_text
    rw [h] at hshape hescaped
    exact hshape.imp_right fun hhead => ⟨hhead, hescaped⟩
  · rintro (rfl | ⟨hhead, hescaped⟩)
    · rfl
    · obtain ⟨rest, rfl⟩ := List.head?_eq_some_iff.mp hhead
      exact text_compileChars_slash ((escaped_cons_of_ne (by decide)).mp hescaped)

/-! ## Strict reading -/

theorem strayTilde?_eq_none_iff (offset : Nat) {cs : List Char} :
    strayTilde? offset cs = none ↔ Escaped cs := by
  fun_induction strayTilde? offset cs with
  | case1 => simp
  | case2 offset tail ih => simp [ih, escaped_cons]
  | case3 offset tail ih => simp [ih, escaped_cons]
  | case4 offset rest hzero hone =>
    rw [escaped_tilde_cons]
    refine iff_of_false (by simp) ?_
    rintro ⟨digit, tail, rfl | rfl, hrest, -⟩
    · exact hzero tail hrest
    · exact hone tail hrest
  | case5 offset c rest hc ih => rw [ih, escaped_cons_of_ne hc]

/-- The texts that strict reading accepts. -/
theorem validate_eq_ok_iff {limits : Limits} {cs : List Char} :
    validate limits cs = .ok () ↔
      cs = [] ∨ (cs.head? = some '/' ∧ Text.byteSize cs ≤ limits.bytes ∧
        cs.count '/' ≤ limits.steps ∧ Escaped cs) := by
  rw [← strayTilde?_eq_none_iff 0]
  unfold validate
  split
  · simp
  · next c rest =>
    simp only [List.head?_cons, Option.some.injEq, reduceCtorEq, false_or]
    split_ifs with hslash hbytes hsteps
    · simp [hslash]
    · simp [Nat.not_le.mpr hbytes]
    · simp [Nat.not_le.mpr hsteps]
    · cases strayTilde? 0 (c :: rest) with
      | none =>
        exact iff_of_true rfl
          ⟨Decidable.not_not.mp hslash, Nat.not_lt.mp hbytes, Nat.not_lt.mp hsteps, rfl⟩
      | some offset => simp

theorem parseWithin_eq_ok_iff {limits : Limits} {s : String} {p : Pointer} :
    parseWithin limits s = .ok p ↔ validate limits s.toList = .ok () ∧ compile s = p := by
  rw [parseWithin, parseChars]
  cases validate limits s.toList <;> simp [Except.map, compile]

/-! ## Texts and their pointer -/

/-- A text is rendered back from its pointer exactly if it is empty, or starts with a slash
and every tilde in it has a zero or a one right behind it.  Strict reading accepts only such
texts, under any limits, so it never reads two texts as the same pointer. -/
theorem render_compile_eq_iff :
    (∀ s : String, (compile s).render = s ↔
        s = "" ∨ (s.toList.head? = some '/' ∧ Escaped s.toList)) ∧
      (∀ limits s p, parseWithin limits s = .ok p → p.render = s) ∧
      ∀ s t p, parse s = .ok p → parse t = .ok p → s = t := by
  have hcompile : ∀ s : String, (compile s).render = s ↔
      s = "" ∨ (s.toList.head? = some '/' ∧ Escaped s.toList) := by
    intro s
    rw [← String.toList_inj, ← String.toList_inj, render, String.toList_ofList]
    exact text_compileChars_iff
  have hparse : ∀ limits s p, parseWithin limits s = .ok p → p.render = s := by
    intro limits s p h
    obtain ⟨hvalid, rfl⟩ := parseWithin_eq_ok_iff.mp h
    refine (hcompile s).mpr ((validate_eq_ok_iff.mp hvalid).imp ?_ ?_)
    · intro hnil
      exact String.toList_inj.mp hnil
    · rintro ⟨hslash, -, -, hescaped⟩
      exact ⟨hslash, hescaped⟩
  refine ⟨hcompile, hparse, fun s t p hs ht => ?_⟩
  rw [← hparse _ s p hs, hparse _ t p ht]

/-- Escapes, an index, a numeral with a zero in front, a hyphen and a number that is too
great for an index. -/
theorem render_compile_eq_iff_every_kind :
    parse "/~01~1/0/007/-/18446744073709551616" =
        .ok [.key "~1/", .index 0, .key "007", .pastEnd, .key "18446744073709551616"] ∧
      render [.key "~1/", .index 0, .key "007", .pastEnd, .key "18446744073709551616"] =
        "/~01~1/0/007/-/18446744073709551616" := by
  have hparse : parse "/~01~1/0/007/-/18446744073709551616" =
      .ok [.key "~1/", .index 0, .key "007", .pastEnd, .key "18446744073709551616"] := rfl
  exact ⟨hparse, render_compile_eq_iff.2.1 _ _ _ hparse⟩

end Pointer

end JsonEdit
