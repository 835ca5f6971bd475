import JsonEdit.Json.Reader
import JsonEdit.Proofs.Json.Members
import JsonEdit.Proofs.Json.Shape
import JsonEdit.Proofs.Json.Tokens

/-!
# Reading what was written

A value that is written and read again is the same value, in both layouts, as long as the
reader can hold it: its containers may be nested up to the greatest depth, its objects have
distinct names, and its numbers are read as they were written.  A value that is nested deeper
is refused.

There are five groups.

* Other numbers.  What is read is the value with each number replaced by the one that its
  text is read as, which need not be the same.
* Delimiters.  What follows an item or a member begins with white space, a comma or a
  bracket, so a number in front of it ends there.
* Values that fit.  `run_text` reads the text of a value in any gap that it can stand in.
  The induction is on the value; what has been read of the containers around it is in the
  frames, and `run_itemsText` and `run_membersText` go on from there.
* Values that are too deep.  `run_text_tooDeep` is the same walk, with `run_text` for the
  parts that come before the one that is refused.
* Whole texts.  `parse_text` is the assembly for numbers that are integers of 64 bits, which
  are read as they were written.
-/

namespace JsonEdit.Json

/-! ## Other numbers -/

mutual

/-- The value with the number `f n` in the place of every number `n`. -/
def mapNumbers (f : Number → Number) : Json → Json
  | null => null
  | bool b => bool b
  | number n => number (f n)
  | string s => string s
  | array items => array (mapNumbersItems f items)
  | object members => object (mapNumbersMembers f members)

/-- The items with other numbers. -/
def mapNumbersItems (f : Number → Number) : List Json → List Json
  | [] => []
  | x :: xs => mapNumbers f x :: mapNumbersItems f xs

/-- The members with other numbers. -/
def mapNumbersMembers (f : Number → Number) : List (String × Json) → List (String × Json)
  | [] => []
  | (name, x) :: ms => (name, mapNumbers f x) :: mapNumbersMembers f ms

end

mutual

theorem mapNumbers_id : ∀ x : Json, x.mapNumbers id = x
  | null | bool _ | number _ | string _ => rfl
  | array items => congrArg array (mapNumbersItems_id items)
  | object members => congrArg object (mapNumbersMembers_id members)

theorem mapNumbersItems_id : ∀ xs : List Json, mapNumbersItems id xs = xs
  | [] => rfl
  | x :: xs => by rw [mapNumbersItems, mapNumbers_id x, mapNumbersItems_id xs]

theorem mapNumbersMembers_id : ∀ ms : List (String × Json), mapNumbersMembers id ms = ms
  | [] => rfl
  | (_, x) :: ms => by rw [mapNumbersMembers, mapNumbers_id x, mapNumbersMembers_id ms]

end

namespace Reader

/-! ## Delimiters -/

theorem delimited_cons {c : Char} (hc : c.isDigit = false ∧ c ≠ '.' ∧ c ≠ 'e' ∧ c ≠ 'E')
    (rest : List Char) : Delimited (c :: rest) := by
  intro d hd
  obtain rfl : c = d := by simpa using hd
  exact hc

theorem delimited_lineBreak (layout : Layout) (depth : Nat) {c : Char}
    (hc : c.isDigit = false ∧ c ≠ '.' ∧ c ≠ 'e' ∧ c ≠ 'E') (rest : List Char) :
    Delimited (layout.lineBreak depth ++ [c] ++ rest) := by
  cases layout with
  | compact => exact delimited_cons hc rest
  | indented => exact delimited_cons (by decide) _

theorem delimited_itemsText (layout : Layout) (depth : Nat) (xs : List Json)
    (rest : List Char) : Delimited (itemsText layout depth xs ++ rest) := by
  cases xs with
  | nil => exact delimited_lineBreak layout depth (by decide) rest
  | cons x xs => exact delimited_cons (by decide) _

theorem delimited_membersText (layout : Layout) (depth : Nat) (ms : List (String × Json))
    (rest : List Char) : Delimited (membersText layout depth ms ++ rest) := by
  cases ms with
  | nil => exact delimited_lineBreak layout depth (by decide) rest
  | cons entry ms => exact delimited_cons (by decide) _

/-! ## Values that fit -/

/-- The text of the number `n` is read as the number `m`, wherever it can stand. -/
def ReadsAs (n m : Number) : Prop :=
  ∀ {gap : Gap} {frames : List Frame} {rest : List Char}, gap.around? = some frames →
    Delimited rest →
    run (.gap gap) (n.text ++ rest) = run (.gap (deliver (.number m) frames)) rest

/-- The text of every number `n` of a value is read as `f n`. -/
def ReadsNumbers (f : Number → Number) (x : Json) : Prop :=
  Everywhere (fun node => ∀ n, node = number n → ReadsAs n (f n)) x

/-- A number that is read as it was written. -/
def Rereads (n : Number) : Prop := ReadsAs n n

/-- Every number of a value is read as it was written. -/
def RereadsNumbers (x : Json) : Prop := ReadsNumbers id x

theorem rereads_of_isInteger64 {n : Number} (h : n.IsInteger64) : Rereads n := by
  obtain ⟨i, rfl, hlow, hhigh⟩ := h
  intro gap frames rest hgap hrest
  exact run_decimalInt hlow hhigh hgap hrest

/-- The name of a member and the colon behind it. -/
theorem run_name {gap : Gap} {members : List (String × Json)} {frames : List Frame}
    (hquote : step '"' (.gap gap) = .ok (.string (.plain []) (.name members) frames))
    (layout : Layout) (name : String) (rest : List Char) :
    run (.gap gap) (stringText name ++ (layout.colon ++ rest)) =
      run (.gap (.value (.object members name :: frames))) rest := by
  rw [run_stringText hquote]
  cases layout <;> rfl

/-- A bracket opens a container as long as fewer than the greatest number are open. -/
theorem step_opening {gap inner : Gap} {frames : List Frame} {c : Char}
    (hgap : gap.around? = some frames) (hspace : isSpace c = false) (hclose : c ≠ ']')
    (hbegin : begin c frames = opening frames inner) (hroom : frames.length < greatestDepth) :
    step c (.gap gap) = .ok (.gap inner) := by
  rw [step_gap hgap hspace hclose, hbegin, opening, if_pos hroom]

/-! ### Up to the next value -/

theorem run_text_array_cons (layout : Layout) (level : Nat) (x : Json) (xs : List Json)
    {gap : Gap} {frames : List Frame} (hgap : gap.around? = some frames)
    (hroom : frames.length < greatestDepth) (rest : List Char) :
    run (.gap gap) (text layout level (array (x :: xs)) ++ rest) =
      run (.gap (.arrayStart frames))
        (text layout (level + 1) x ++ (itemsText layout level xs ++ rest)) := by
  rw [text, List.append_assoc, List.append_assoc, List.cons_append,
    run_cons (step_opening hgap rfl (by decide) rfl hroom),
    run_spaces (all_isSpace_lineBreak layout _)]

theorem run_itemsText_cons (layout : Layout) (level : Nat) (x : Json) (xs read : List Json)
    (frames : List Frame) (rest : List Char) :
    run (.gap (.afterItem read frames)) (itemsText layout level (x :: xs) ++ rest) =
      run (.gap (.item read frames))
        (text layout (level + 1) x ++ (itemsText layout level xs ++ rest)) := by
  have hcomma : step ',' (.gap (.afterItem read frames)) = .ok (.gap (.item read frames)) := rfl
  rw [itemsText, List.append_assoc, List.append_assoc, List.cons_append, run_cons hcomma,
    run_spaces (all_isSpace_lineBreak layout _)]

theorem run_text_object_cons (layout : Layout) (level : Nat) (name : String) (x : Json)
    (ms : List (String × Json)) {gap : Gap} {frames : List Frame}
    (hgap : gap.around? = some frames) (hroom : frames.length < greatestDepth)
    (rest : List Char) :
    run (.gap gap) (text layout level (object ((name, x) :: ms)) ++ rest) =
      run (.gap (.value (.object [] name :: frames)))
        (text layout (level + 1) x ++ (membersText layout level ms ++ rest)) := by
  have hquote : step '"' (.gap (.objectStart frames)) =
      .ok (.string (.plain []) (.name []) frames) := rfl
  rw [text, List.append_assoc, List.append_assoc, List.append_assoc, List.append_assoc,
    List.cons_append, run_cons (step_opening hgap rfl (by decide) rfl hroom),
    run_spaces (all_isSpace_lineBreak layout _), run_name hquote]

theorem run_membersText_cons (layout : Layout) (level : Nat) (name : String) (x : Json)
    (ms read : List (String × Json)) (frames : List Frame) (rest : List Char) :
    run (.gap (.afterMember read frames)) (membersText layout level ((name, x) :: ms) ++ rest) =
      run (.gap (.value (.object read name :: frames)))
        (text layout (level + 1) x ++ (membersText layout level ms ++ rest)) := by
  have hcomma : step ',' (.gap (.afterMember read frames)) = .ok (.gap (.member read frames)) :=
    rfl
  have hquote : step '"' (.gap (.member read frames)) =
      .ok (.string (.plain []) (.name read) frames) := rfl
  rw [membersText, List.append_assoc, List.append_assoc, List.append_assoc, List.append_assoc,
    List.cons_append, run_cons hcomma, run_spaces (all_isSpace_lineBreak layout _),
    run_name hquote]

/-! ### The walk -/

/-- A member whose name is new goes to the end of those that have been read. -/
theorem put_read {read ms : List (String × Json)} {name : String} {x y : Json}
    (hnodup : (Members.keys (read ++ (name, x) :: ms)).Nodup) :
    Members.put read name y = read ++ [(name, y)] :=
  Members.put_of_get?_eq_none (Members.get?_eq_none_of_nodup hnodup) y

/-- The names stay distinct when a member is read as another value. -/
theorem nodup_read {read ms : List (String × Json)} {name : String} {x : Json}
    (hnodup : (Members.keys (read ++ (name, x) :: ms)).Nodup) (y : Json) :
    (Members.keys (read ++ [(name, y)] ++ ms)).Nodup := by
  simpa [Members.keys] using hnodup

mutual

/-- The text of a value that fits is read back, in every gap that a value can stand in. -/
theorem run_text (layout : Layout) {f : Number → Number} :
    ∀ (x : Json) (level : Nat) {gap : Gap}
    {frames : List Frame} {rest : List Char}, DistinctNames x → ReadsNumbers f x →
    frames.length + x.depth ≤ greatestDepth → gap.around? = some frames → Delimited rest →
    run (.gap gap) (text layout level x ++ rest) =
      run (.gap (deliver (x.mapNumbers f) frames)) rest
  | null, level, gap, frames, rest, _, _, _, hgap, _ => by
    have hstep : step 'n' (.gap gap) = .ok (.literal 'u' ['l', 'l'] .null frames) :=
      step_gap hgap rfl (by decide)
    show run (.gap gap) ('n' :: 'u' :: 'l' :: 'l' :: rest) = _
    rw [run_cons hstep]
    rfl
  | bool true, level, gap, frames, rest, _, _, _, hgap, _ => by
    have hstep : step 't' (.gap gap) = .ok (.literal 'r' ['u', 'e'] (.bool true) frames) :=
      step_gap hgap rfl (by decide)
    show run (.gap gap) ('t' :: 'r' :: 'u' :: 'e' :: rest) = _
    rw [run_cons hstep]
    rfl
  | bool false, level, gap, frames, rest, _, _, _, hgap, _ => by
    have hstep : step 'f' (.gap gap) = .ok (.literal 'a' ['l', 's', 'e'] (.bool false) frames) :=
      step_gap hgap rfl (by decide)
    show run (.gap gap) ('f' :: 'a' :: 'l' :: 's' :: 'e' :: rest) = _
    rw [run_cons hstep]
    rfl
  | number n, level, gap, frames, rest, _, hnumbers, _, hgap, hrest => hnumbers n rfl hgap hrest
  | string s, level, gap, frames, rest, _, _, _, hgap, _ => by
    have hquote : step '"' (.gap gap) = .ok (.string (.plain []) .value frames) :=
      step_gap hgap rfl (by decide)
    exact run_stringText hquote s rest
  | array [], level, gap, frames, rest, _, _, hfits, hgap, _ => by
    have hroom : frames.length < greatestDepth := hfits
    show run (.gap gap) ('[' :: ']' :: rest) = _
    rw [run_cons (step_opening hgap rfl (by decide) rfl hroom)]
    rfl
  | array (x :: xs), level, gap, frames, rest, hdistinct, hnumbers, hfits, hgap, _ => by
    simp only [depth, depthItems] at hfits
    have hitem : (Frame.array [] :: frames).length + x.depth ≤ greatestDepth := by
      rw [List.length_cons]
      omega
    rw [run_text_array_cons layout level x xs hgap (by omega),
      run_text layout x (level + 1) hdistinct.2.1 hnumbers.2.1 hitem rfl
        (delimited_itemsText layout level xs rest)]
    exact run_itemsText layout xs level [x.mapNumbers f] hdistinct.2.2 hnumbers.2.2 (by omega)
  | object [], level, gap, frames, rest, _, _, hfits, hgap, _ => by
    have hroom : frames.length < greatestDepth := hfits
    show run (.gap gap) ('\x7b' :: '\x7d' :: rest) = _
    rw [run_cons (step_opening hgap rfl (by decide) rfl hroom)]
    rfl
  | object ((name, x) :: ms), level, gap, frames, rest, hdistinct, hnumbers, hfits, hgap, _ => by
    simp only [depth, depthMembers] at hfits
    have hvalue : (Frame.object [] name :: frames).length + x.depth ≤ greatestDepth := by
      rw [List.length_cons]
      omega
    rw [run_text_object_cons layout level name x ms hgap (by omega),
      run_text layout x (level + 1) hdistinct.2.1 hnumbers.2.1 hvalue rfl
        (delimited_membersText layout level ms rest)]
    exact run_membersText layout ms level [(name, x.mapNumbers f)] hdistinct.1 hdistinct.2.2
      hnumbers.2.2 (by omega)

/-- The items after the first are read behind those that have been read. -/
theorem run_itemsText (layout : Layout) {f : Number → Number} :
    ∀ (xs : List Json) (level : Nat) (read : List Json)
    {frames : List Frame} {rest : List Char}, EverywhereItems (fun node => node.names.Nodup) xs →
    EverywhereItems (fun node => ∀ n, node = number n → ReadsAs n (f n)) xs →
    frames.length + 1 + depthItems xs ≤ greatestDepth →
    run (.gap (.afterItem read frames)) (itemsText layout level xs ++ rest) =
      run (.gap (deliver (.array (read.reverse ++ mapNumbersItems f xs)) frames)) rest
  | [], level, read, frames, rest, _, _, _ => by
    rw [itemsText, List.append_assoc, run_spaces (all_isSpace_lineBreak layout _),
      mapNumbersItems, List.append_nil]
    rfl
  | x :: xs, level, read, frames, rest, hdistinct, hnumbers, hfits => by
    simp only [depthItems] at hfits
    have hitem : (Frame.array read :: frames).length + x.depth ≤ greatestDepth := by
      rw [List.length_cons]
      omega
    rw [run_itemsText_cons, run_text layout x (level + 1) hdistinct.1 hnumbers.1 hitem rfl
      (delimited_itemsText layout level xs rest)]
    show run (.gap (.afterItem (x.mapNumbers f :: read) frames)) _ = _
    rw [run_itemsText layout xs level (x.mapNumbers f :: read) hdistinct.2 hnumbers.2 (by omega),
      List.reverse_cons, List.append_assoc, List.singleton_append]
    rfl

/-- The members after the first are read behind those that have been read. -/
theorem run_membersText (layout : Layout) {f : Number → Number} :
    ∀ (ms : List (String × Json)) (level : Nat)
    (read : List (String × Json)) {frames : List Frame} {rest : List Char},
    (Members.keys (read ++ ms)).Nodup → EverywhereMembers (fun node => node.names.Nodup) ms →
    EverywhereMembers (fun node => ∀ n, node = number n → ReadsAs n (f n)) ms →
    frames.length + 1 + depthMembers ms ≤ greatestDepth →
    run (.gap (.afterMember read frames)) (membersText layout level ms ++ rest) =
      run (.gap (deliver (.object (read ++ mapNumbersMembers f ms)) frames)) rest
  | [], level, read, frames, rest, _, _, _, _ => by
    rw [membersText, List.append_assoc, run_spaces (all_isSpace_lineBreak layout _),
      mapNumbersMembers, List.append_nil]
    rfl
  | (name, x) :: ms, level, read, frames, rest, hnodup, hdistinct, hnumbers, hfits => by
    simp only [depthMembers] at hfits
    have hvalue : (Frame.object read name :: frames).length + x.depth ≤ greatestDepth := by
      rw [List.length_cons]
      omega
    rw [run_membersText_cons, run_text layout x (level + 1) hdistinct.1 hnumbers.1 hvalue rfl
      (delimited_membersText layout level ms rest)]
    show run (.gap (.afterMember (Members.put read name (x.mapNumbers f)) frames)) _ = _
    rw [put_read hnodup, run_membersText layout ms level (read ++ [(name, x.mapNumbers f)])
      (nodup_read hnodup _) hdistinct.2 hnumbers.2 (by omega), List.append_assoc,
      List.singleton_append]
    rfl

end

/-! ## Values that are too deep -/

/-- Reading ends at a bracket that would open one container too many. -/
def TooDeep (outcome : Except Failure Json) : Prop :=
  ∃ behind, outcome = .error ⟨.tooDeep, behind⟩

theorem tooDeep_of_opening {gap inner : Gap} {frames : List Frame} {c : Char}
    (hgap : gap.around? = some frames) (hspace : isSpace c = false) (hclose : c ≠ ']')
    (hbegin : begin c frames = opening frames inner) (hfull : ¬ frames.length < greatestDepth)
    (rest : List Char) : TooDeep (run (.gap gap) (c :: rest)) := by
  rw [run, step_gap hgap hspace hclose, hbegin, opening, if_neg hfull]
  exact ⟨_, rfl⟩

theorem tooDeep_array (layout : Layout) (level : Nat) (xs : List Json) {gap : Gap}
    {frames : List Frame} (hgap : gap.around? = some frames)
    (hfull : ¬ frames.length < greatestDepth) (rest : List Char) :
    TooDeep (run (.gap gap) (text layout level (array xs) ++ rest)) := by
  cases xs with
  | nil => exact tooDeep_of_opening hgap rfl (by decide) rfl hfull _
  | cons x xs =>
    rw [text, List.append_assoc, List.append_assoc, List.cons_append]
    exact tooDeep_of_opening hgap rfl (by decide) rfl hfull _

theorem tooDeep_object (layout : Layout) (level : Nat) (ms : List (String × Json)) {gap : Gap}
    {frames : List Frame} (hgap : gap.around? = some frames)
    (hfull : ¬ frames.length < greatestDepth) (rest : List Char) :
    TooDeep (run (.gap gap) (text layout level (object ms) ++ rest)) := by
  cases ms with
  | nil => exact tooDeep_of_opening hgap rfl (by decide) rfl hfull _
  | cons entry ms =>
    rw [text, List.append_assoc, List.append_assoc, List.append_assoc, List.append_assoc,
      List.cons_append]
    exact tooDeep_of_opening hgap rfl (by decide) rfl hfull _

mutual

/-- The text of a value that does not fit is refused for its depth. -/
theorem run_text_tooDeep (layout : Layout) {f : Number → Number} :
    ∀ (x : Json) (level : Nat) {gap : Gap}
    {frames : List Frame} (rest : List Char), DistinctNames x → ReadsNumbers f x →
    frames.length ≤ greatestDepth → greatestDepth < frames.length + x.depth →
    gap.around? = some frames → TooDeep (run (.gap gap) (text layout level x ++ rest))
  | null, _, _, _, _, _, _, hopen, hdeep, _ | bool _, _, _, _, _, _, _, hopen, hdeep, _
  | number _, _, _, _, _, _, _, hopen, hdeep, _ | string _, _, _, _, _, _, _, hopen, hdeep, _ => by
    simp only [depth] at hdeep
    omega
  | array [], level, gap, frames, rest, _, _, _, hdeep, hgap =>
    tooDeep_array layout level [] hgap (Nat.not_lt_of_le (Nat.le_of_lt_succ hdeep)) rest
  | array (x :: xs), level, gap, frames, rest, hdistinct, hnumbers, _, hdeep, hgap => by
    simp only [depth, depthItems] at hdeep
    by_cases hroom : frames.length < greatestDepth
    · rw [run_text_array_cons layout level x xs hgap hroom]
      have hinner : (Frame.array [] :: frames).length ≤ greatestDepth := hroom
      by_cases hitem : (Frame.array [] :: frames).length + x.depth ≤ greatestDepth
      · rw [run_text layout x (level + 1) hdistinct.2.1 hnumbers.2.1 hitem rfl
          (delimited_itemsText layout level xs rest)]
        rw [List.length_cons] at hitem
        exact run_itemsText_tooDeep layout xs level [x.mapNumbers f] rest hdistinct.2.2
          hnumbers.2.2 hroom (by omega)
      · exact run_text_tooDeep layout x (level + 1) _ hdistinct.2.1 hnumbers.2.1 hinner
          (Nat.lt_of_not_le hitem) rfl
    · exact tooDeep_array layout level (x :: xs) hgap hroom rest
  | object [], level, gap, frames, rest, _, _, _, hdeep, hgap =>
    tooDeep_object layout level [] hgap (Nat.not_lt_of_le (Nat.le_of_lt_succ hdeep)) rest
  | object ((name, x) :: ms), level, gap, frames, rest, hdistinct, hnumbers, _, hdeep, hgap => by
    simp only [depth, depthMembers] at hdeep
    by_cases hroom : frames.length < greatestDepth
    · rw [run_text_object_cons layout level name x ms hgap hroom]
      have hinner : (Frame.object [] name :: frames).length ≤ greatestDepth := hroom
      by_cases hvalue : (Frame.object [] name :: frames).length + x.depth ≤ greatestDepth
      · rw [run_text layout x (level + 1) hdistinct.2.1 hnumbers.2.1 hvalue rfl
          (delimited_membersText layout level ms rest)]
        rw [List.length_cons] at hvalue
        exact run_membersText_tooDeep layout ms level [(name, x.mapNumbers f)] rest hdistinct.1
          hdistinct.2.2 hnumbers.2.2 hroom (by omega)
      · exact run_text_tooDeep layout x (level + 1) _ hdistinct.2.1 hnumbers.2.1 hinner
          (Nat.lt_of_not_le hvalue) rfl
    · exact tooDeep_object layout level ((name, x) :: ms) hgap hroom rest

/-- Items of which one does not fit are refused for their depth. -/
theorem run_itemsText_tooDeep (layout : Layout) {f : Number → Number} :
    ∀ (xs : List Json) (level : Nat)
    (read : List Json) {frames : List Frame} (rest : List Char),
    EverywhereItems (fun node => node.names.Nodup) xs →
    EverywhereItems (fun node => ∀ n, node = number n → ReadsAs n (f n)) xs →
    frames.length < greatestDepth → greatestDepth < frames.length + 1 + depthItems xs →
    TooDeep (run (.gap (.afterItem read frames)) (itemsText layout level xs ++ rest))
  | [], _, _, _, _, _, _, hroom, hdeep => by
    simp only [depthItems] at hdeep
    omega
  | x :: xs, level, read, frames, rest, hdistinct, hnumbers, hroom, hdeep => by
    simp only [depthItems] at hdeep
    have hinner : (Frame.array read :: frames).length ≤ greatestDepth := hroom
    rw [run_itemsText_cons]
    by_cases hitem : (Frame.array read :: frames).length + x.depth ≤ greatestDepth
    · rw [run_text layout x (level + 1) hdistinct.1 hnumbers.1 hitem rfl
        (delimited_itemsText layout level xs rest)]
      rw [List.length_cons] at hitem
      exact run_itemsText_tooDeep layout xs level (x.mapNumbers f :: read) rest hdistinct.2
        hnumbers.2 hroom (by omega)
    · exact run_text_tooDeep layout x (level + 1) _ hdistinct.1 hnumbers.1 hinner
        (Nat.lt_of_not_le hitem) rfl

/-- Members of which one does not fit are refused for their depth. -/
theorem run_membersText_tooDeep (layout : Layout) {f : Number → Number} :
    ∀ (ms : List (String × Json)) (level : Nat)
    (read : List (String × Json)) {frames : List Frame} (rest : List Char),
    (Members.keys (read ++ ms)).Nodup → EverywhereMembers (fun node => node.names.Nodup) ms →
    EverywhereMembers (fun node => ∀ n, node = number n → ReadsAs n (f n)) ms →
    frames.length < greatestDepth → greatestDepth < frames.length + 1 + depthMembers ms →
    TooDeep (run (.gap (.afterMember read frames)) (membersText layout level ms ++ rest))
  | [], _, _, _, _, _, _, _, hroom, hdeep => by
    simp only [depthMembers] at hdeep
    omega
  | (name, x) :: ms, level, read, frames, rest, hnodup, hdistinct, hnumbers, hroom, hdeep => by
    simp only [depthMembers] at hdeep
    have hinner : (Frame.object read name :: frames).length ≤ greatestDepth := hroom
    rw [run_membersText_cons]
    by_cases hvalue : (Frame.object read name :: frames).length + x.depth ≤ greatestDepth
    · rw [run_text layout x (level + 1) hdistinct.1 hnumbers.1 hvalue rfl
        (delimited_membersText layout level ms rest)]
      show TooDeep (run (.gap (.afterMember (Members.put read name (x.mapNumbers f)) frames)) _)
      rw [put_read hnodup]
      rw [List.length_cons] at hvalue
      exact run_membersText_tooDeep layout ms level (read ++ [(name, x.mapNumbers f)]) rest
        (nodup_read hnodup _) hdistinct.2 hnumbers.2 hroom (by omega)
    · exact run_text_tooDeep layout x (level + 1) _ hdistinct.1 hnumbers.1 hinner
        (Nat.lt_of_not_le hvalue) rfl

end

end Reader

/-! ## Whole texts -/

/-- Values whose numbers are integers of 64 bits have numbers that are read as they were
written. -/
theorem Integers64.rereadsNumbers {x : Json} (h : x.Integers64) : Reader.RereadsNumbers x := by
  refine Everywhere.imp ?_ x h
  intro node hnode n hn
  exact Reader.rereads_of_isInteger64 (hnode n hn)

/-- The whole text of a value that fits is read as the value with the numbers that its own
are read as. -/
theorem parseChars_text_of_readsNumbers (layout : Layout) {f : Number → Number} {x : Json}
    (hdistinct : x.DistinctNames) (hnumbers : Reader.ReadsNumbers f x)
    (hfits : x.depth ≤ Reader.greatestDepth) :
    parseChars (text layout 0 x) = .ok (x.mapNumbers f) := by
  have hopen : ([] : List Reader.Frame).length + x.depth ≤ Reader.greatestDepth := by
    rwa [List.length_nil, Nat.zero_add]
  have hend : Reader.Delimited [] := by
    intro c hc
    cases hc
  have hrun := Reader.run_text layout x 0 hdistinct hnumbers hopen
    (rfl : (Reader.Gap.value []).around? = some []) hend
  rw [List.append_nil] at hrun
  rw [parseChars, hrun]
  rfl

/-- The whole text of a value that fits is that value. -/
theorem parseChars_text (layout : Layout) {x : Json} (hdistinct : x.DistinctNames)
    (hnumbers : Reader.RereadsNumbers x) (hfits : x.depth ≤ Reader.greatestDepth) :
    parseChars (text layout 0 x) = .ok x := by
  rw [parseChars_text_of_readsNumbers layout hdistinct hnumbers hfits, mapNumbers_id]

/-- The whole text of a value that does not fit is refused for its depth. -/
theorem parseChars_text_tooDeep (layout : Layout) {f : Number → Number} {x : Json}
    (hdistinct : x.DistinctNames) (hnumbers : Reader.ReadsNumbers f x)
    (hdeep : Reader.greatestDepth < x.depth) :
    ∃ e, parseChars (text layout 0 x) = .error e ∧ e.fault = .tooDeep := by
  have hopen : Reader.greatestDepth < ([] : List Reader.Frame).length + x.depth := by
    rwa [List.length_nil, Nat.zero_add]
  obtain ⟨behind, hrun⟩ := Reader.run_text_tooDeep layout x 0 [] hdistinct hnumbers
    (Nat.zero_le _) hopen (rfl : (Reader.Gap.value []).around? = some [])
  rw [List.append_nil] at hrun
  rw [parseChars, hrun]
  exact ⟨_, rfl, rfl⟩

/-- A value with distinct names and integers of 64 bits is read back from its text in either
layout, with every member where it was, when at most 127 containers are nested in it.  When
more are nested, both texts are refused for that. -/
theorem parse_text (x : Json) (hdistinct : x.DistinctNames) (hintegers : x.Integers64) :
    (x.depth ≤ 127 → parse x.compact = .ok x ∧ parse x.pretty = .ok x) ∧
      (127 < x.depth →
        (∃ e, parse x.compact = .error e ∧ e.fault = .tooDeep) ∧
        ∃ e, parse x.pretty = .error e ∧ e.fault = .tooDeep) := by
  have hnumbers := hintegers.rereadsNumbers
  rw [parse, parse, compact, pretty, String.toList_ofList, String.toList_ofList]
  refine ⟨?_, ?_⟩
  · intro hfits
    exact ⟨parseChars_text .compact hdistinct hnumbers hfits,
      parseChars_text .indented hdistinct hnumbers hfits⟩
  · intro hdeep
    exact ⟨parseChars_text_tooDeep .compact hdistinct hnumbers hdeep,
      parseChars_text_tooDeep .indented hdistinct hnumbers hdeep⟩

/-- Escapes, the control characters, both ends of the 64 bits and empty containers, and then
one container more than the greatest number. -/
theorem parse_text_mixed_and_nested :
    parse (object [("\"\\", array [string "\n\x01é😀", bool true, array []]), ("", object []),
        ("ends", array [ofInt (-2 ^ 63), ofInt (2 ^ 64 - 1)])]).pretty =
      .ok (object [("\"\\", array [string "\n\x01é😀", bool true, array []]), ("", object []),
        ("ends", array [ofInt (-2 ^ 63), ofInt (2 ^ 64 - 1)])]) ∧
    ∃ e, parse ((List.range 128).foldr (fun _ inner => array [inner]) null).compact = .error e ∧
      e.fault = .tooDeep := by
  refine ⟨((parse_text _ (by decide) (by decide)).1 (by decide)).2, ?_⟩
  exact ((parse_text _ (by decide +kernel) (by decide +kernel)).2 (by decide +kernel)).1

end JsonEdit.Json
