import JsonEdit.Pointer.Lookup

/-!
# Where a lookup ends

`select` says what a pointer leads to, `resolve` says in addition why it leads nowhere.
They are two walks over the same document.  This module proves that they find the same
value, and that the error of `resolve` is decided by the first step that leads nowhere.

There are four groups.

* Mapped results.  What `Except.map` and `Except.mapError` do to a value and to an error.
* Sites.  `Pointer.Error.under` moves an error up to the start of a pointer, where its site
  grows at the front, and `Pointer.Error.site?` reads the pointer that an error names.
* One step.  `child?_eq_some_iff` and `follow_of_child?_eq_none` compare what the two
  walks do at one value; `deadEnd` is the error of a step that leads nowhere.
* Whole pointers.  `resolve_eq_ok_iff` is the agreement, `exists_deadEnd_of_select_eq_none`
  splits a failing pointer at its first step that leads nowhere, and
  `resolve_of_deadEnd` computes the error from such a split.
-/

namespace JsonEdit

/-! ## Mapped results -/

@[simp]
theorem mapError_ok {α ε ε' : Type} (f : ε → ε') (x : α) :
    (Except.ok x).mapError f = .ok x := rfl

@[simp]
theorem mapError_error {α ε ε' : Type} (f : ε → ε') (e : ε) :
    (Except.error e : Except ε α).mapError f = .error (f e) := rfl

theorem map_eq_ok_iff {α β ε : Type} {f : α → β} {x : Except ε α} {b : β} :
    x.map f = .ok b ↔ ∃ a, x = .ok a ∧ f a = b := by
  cases x <;> simp [Except.map]

theorem map_eq_error_iff {α β ε : Type} {f : α → β} {x : Except ε α} {e : ε} :
    x.map f = .error e ↔ x = .error e := by
  cases x <;> simp [Except.map]

theorem bind_eq_ok_iff {α β ε : Type} {f : α → Except ε β} {x : Except ε α} {b : β} :
    x >>= f = .ok b ↔ ∃ a, x = .ok a ∧ f a = .ok b := by
  cases x <;> simp [bind, Except.bind]

theorem mapError_eq_ok_iff {α ε ε' : Type} {f : ε → ε'} {x : Except ε α} {a : α} :
    x.mapError f = .ok a ↔ x = .ok a := by
  cases x <;> simp

namespace Pointer.Error

/-! ## Sites -/

/-- The pointer up to and with the step that failed.  A move into a descendant names
two pointers instead. -/
def site? : Error → Option Pointer
  | notFound site | missingIntermediate site | indexOutOfRange site _ _ | pastEnd site
  | typeMismatch site _ => some site
  | moveIntoDescendant _ _ => none

/-- The same error, seen from the start of a pointer that leads to where it was met. -/
def under (p : Pointer) (e : Error) : Error := p.foldr below e

@[simp]
theorem under_nil (e : Error) : e.under [] = e := rfl

@[simp]
theorem under_cons (step : Step) (p : Pointer) (e : Error) :
    e.under (step :: p) = (e.under p).below step := rfl

/-- Where one step in front of an error is one step in front of its site, so is a pointer. -/
theorem under_of_below {f : Pointer → Error}
    (hf : ∀ step site, (f site).below step = f (step :: site)) (p site : Pointer) :
    (f site).under p = f (p ++ site) := by
  induction p with
  | nil => rfl
  | cons first rest ih => rw [under_cons, ih, hf, List.cons_append]

theorem under_pastEnd (p site : Pointer) : (pastEnd site).under p = pastEnd (p ++ site) :=
  under_of_below (fun _ _ => rfl) p site

theorem under_indexOutOfRange (p site : Pointer) (index length : Nat) :
    (indexOutOfRange site index length).under p = indexOutOfRange (p ++ site) index length :=
  under_of_below (f := (indexOutOfRange · index length)) (fun _ _ => rfl) p site

theorem site?_below (step : Step) (e : Error) :
    (e.below step).site? = e.site?.map (step :: ·) := by
  cases e <;> rfl

/-- The site of an error grows at its front. -/
theorem site?_under (p : Pointer) (e : Error) : (e.under p).site? = e.site?.map (p ++ ·) := by
  induction p with
  | nil => simp
  | cons step rest ih =>
    rw [under_cons, site?_below, ih, Option.map_map]
    rfl

/-- The rendered site of an error grows at its front by the rendered pointer. -/
theorem render_site?_under (p : Pointer) (e : Error) :
    (e.under p).site?.map render = e.site?.map fun site => render p ++ render site := by
  rw [site?_under, Option.map_map]
  have hrender : render ∘ (p ++ ·) = fun site => render p ++ render site := by
    funext site
    simp [render]
  rw [hrender]

end Pointer.Error

namespace Json

/-! ## One step -/

/-- Why a step leads nowhere from a value; the site is the pointer up to and with the step.
The place behind the last item never holds a value.  An object has no member of that
name, or an array no item with that index; any other value has no such parts at all. -/
def deadEnd (node : Json) (site : Pointer) : Step → Pointer.Error
  | .pastEnd => .pastEnd site
  | .index _ => if node.isScalar then .typeMismatch site node.kind else .notFound site
  | .key _ => if node.kind = .object then .notFound site else .typeMismatch site node.kind

theorem below_deadEnd (node : Json) (front : Step) (site : Pointer) (step : Step) :
    (node.deadEnd site step).below front = node.deadEnd (front :: site) step := by
  cases step with
  | pastEnd => rfl
  | index i | key name =>
    simp only [deadEnd]
    split <;> rfl

theorem under_deadEnd (node : Json) (front site : Pointer) (step : Step) :
    (node.deadEnd site step).under front = node.deadEnd (front ++ site) step :=
  Pointer.Error.under_of_below (fun first rest => below_deadEnd node first rest step) front site

/-- A dead end names the pointer that it was given. -/
theorem site?_deadEnd (node : Json) (site : Pointer) (step : Step) :
    (node.deadEnd site step).site? = some site := by
  cases step with
  | pastEnd => rfl
  | index i | key name =>
    simp only [deadEnd]
    split <;> rfl

/-- The two walks agree on the values that one step leads to. -/
theorem child?_eq_some_iff {node child : Json} {step : Step} :
    node.child? step = some child ↔ node.follow step = .ok child := by
  cases node with
  | object members =>
    cases step with
    | pastEnd => simp [child?, follow, Step.asKey?]
    | index i | key name =>
      simp only [child?, follow]
      cases (Option.bind _ (Members.get? members)) <;> simp
  | array items =>
    cases step with
    | index i =>
      simp only [child?, follow]
      cases items[i]? <;> simp
    | key name | pastEnd => simp [child?, follow]
  | _ => cases step <;> simp [child?, follow]

/-- A step that leads nowhere is a dead end. -/
theorem follow_of_child?_eq_none {node : Json} {step : Step} (h : node.child? step = none) :
    node.follow step = .error (node.deadEnd [step] step) := by
  cases node with
  | object members =>
    cases step with
    | pastEnd => rfl
    | index i | key name =>
      simp only [child?] at h
      simp [follow, h, deadEnd, isScalar, kind]
  | array items =>
    cases step with
    | index i =>
      simp only [child?] at h
      simp [follow, h, deadEnd, isScalar]
    | key name | pastEnd => simp [follow, deadEnd, kind]
  | _ => cases step <;> simp [follow, deadEnd, isScalar, kind]

/-! ## Whole pointers -/

/-- `resolve` finds what `select` finds. -/
theorem resolve_eq_ok_iff {doc node : Json} {p : Pointer} :
    doc.resolve p = .ok node ↔ doc.select p = some node := by
  induction p generalizing doc with
  | nil => simp [resolve, select]
  | cons step rest ih =>
    rw [select, resolve]
    cases hchild : doc.child? step with
    | none => simp [follow_of_child?_eq_none hchild]
    | some child =>
      rw [child?_eq_some_iff.mp hchild, Option.bind_some, ← ih]
      show (child.resolve rest).mapError _ = _ ↔ _
      cases child.resolve rest <;> simp

theorem select_eq_none_of_resolve {doc : Json} {p : Pointer} {e : Pointer.Error}
    (h : doc.resolve p = .error e) : doc.select p = none := by
  cases hselect : doc.select p with
  | none => rfl
  | some node =>
    rw [resolve_eq_ok_iff.mpr hselect] at h
    simp at h

/-- A lookup below a value that a pointer leads to fails as it does from that value, with
the pointer in front of the site. -/
theorem resolve_append {doc node : Json} {c : Pointer} (h : doc.select c = some node)
    (p : Pointer) : doc.resolve (c ++ p) = (node.resolve p).mapError (·.under c) := by
  induction c generalizing doc with
  | nil =>
    obtain rfl : doc = node := by simpa [select] using h
    cases hresolve : doc.resolve p <;> simp [hresolve]
  | cons step rest ih =>
    rw [select, Option.bind_eq_some_iff] at h
    obtain ⟨child, hchild, hrest⟩ := h
    rw [List.cons_append, resolve, child?_eq_some_iff.mp hchild]
    show (child.resolve (rest ++ p)).mapError _ = _
    rw [ih hrest]
    cases node.resolve p <;> rfl

/-- The error of a lookup is the dead end that its first step without a value runs into. -/
theorem resolve_of_deadEnd {doc node : Json} {c : Pointer} {step : Step}
    (hnode : doc.select c = some node) (hstep : node.child? step = none) (rest : Pointer) :
    doc.resolve (c ++ step :: rest) = .error (node.deadEnd (c ++ [step]) step) := by
  rw [resolve_append hnode, resolve, follow_of_child?_eq_none hstep, ← under_deadEnd]
  rfl

/-- A pointer that leads nowhere has a first step that leads nowhere. -/
theorem exists_deadEnd_of_select_eq_none {doc : Json} {p : Pointer} (h : doc.select p = none) :
    ∃ c step rest node, p = c ++ step :: rest ∧ doc.select c = some node ∧
      node.child? step = none := by
  induction p generalizing doc with
  | nil => simp [select] at h
  | cons first others ih =>
    cases hchild : doc.child? first with
    | none => exact ⟨[], first, others, doc, rfl, rfl, hchild⟩
    | some child =>
      rw [select, hchild, Option.bind_some] at h
      obtain ⟨c, step, rest, node, rfl, hnode, hstep⟩ := ih h
      refine ⟨first :: c, step, rest, node, rfl, ?_, hstep⟩
      rw [select, hchild, Option.bind_some, hnode]

/-- A pointer leads nowhere as soon as one of its beginnings does. -/
theorem select_eq_none_of_le {doc : Json} {p : Pointer} {k l : Nat} (hle : k ≤ l)
    (h : doc.select (p.take k) = none) : doc.select (p.take l) = none := by
  have hsplit : p.take l = p.take k ++ (p.drop k).take (l - k) := by
    rw [← List.take_add, Nat.add_sub_cancel' hle]
  rw [hsplit, select_append, h, Option.bind_none]

/-- There is at most one step at which a lookup changes from a value to none. -/
theorem eq_of_select_take {doc : Json} {p : Pointer} {k l : Nat}
    (hk : (doc.select (p.take (k - 1))).isSome ∧ doc.select (p.take k) = none)
    (hl : (doc.select (p.take (l - 1))).isSome ∧ doc.select (p.take l) = none) : k = l := by
  have hnot : ∀ {a b : Nat}, doc.select (p.take a) = none →
      (doc.select (p.take (b - 1))).isSome → ¬ a < b := by
    intro a b ha hb hlt
    rw [select_eq_none_of_le (Nat.le_sub_one_of_lt hlt) ha] at hb
    simp at hb
  have hkl : ¬ k < l := hnot hk.2 hl.1
  have hlk : ¬ l < k := hnot hl.2 hk.1
  omega

/-- `select` and `resolve` are one lookup, and the error of `resolve` is the dead end of
the one step at which `select` changes from a value to none. -/
theorem resolve_names_first_dead_end (doc : Json) (p : Pointer) :
    (∀ node, doc.select p = some node ↔ doc.resolve p = .ok node) ∧
      ∀ e, doc.resolve p = .error e →
        ∃ k node step, 1 ≤ k ∧ p[k - 1]? = some step ∧
          doc.select (p.take (k - 1)) = some node ∧ doc.select (p.take k) = none ∧
          (∀ l other, 1 ≤ l → doc.select (p.take (l - 1)) = some other →
            doc.select (p.take l) = none → l = k) ∧
          e = node.deadEnd (p.take k) step ∧
          e.site?.map Pointer.render = some (Pointer.render (p.take k)) := by
  refine ⟨fun node => resolve_eq_ok_iff.symm, ?_⟩
  intro e he
  obtain ⟨c, step, rest, node, rfl, hnode, hstep⟩ :=
    exists_deadEnd_of_select_eq_none (select_eq_none_of_resolve he)
  have hbefore : (c ++ step :: rest).take (c.length + 1 - 1) = c := by simp
  have hupto : (c ++ step :: rest).take (c.length + 1) = c ++ [step] := by
    rw [List.take_length_add_append]
    simp
  have hlost : doc.select (c ++ [step]) = none := by
    rw [select_append, hnode, Option.bind_some, select, hstep, Option.bind_none]
  have herror : e = node.deadEnd (c ++ [step]) step := by
    rw [resolve_of_deadEnd hnode hstep rest] at he
    simpa using he.symm
  refine ⟨c.length + 1, node, step, Nat.le_add_left 1 _, by simp, ?_, ?_, ?_, ?_, ?_⟩
  · rw [hbefore, hnode]
  · rw [hupto, hlost]
  · intro l other _ hother hl
    refine eq_of_select_take ⟨by rw [hother, Option.isSome_some], hl⟩ ?_
    rw [hbefore, hupto]
    exact ⟨by rw [hnode, Option.isSome_some], hlost⟩
  · rw [hupto, herror]
  · rw [hupto, herror, site?_deadEnd, Option.map_some]

/-- The lookup of a pointer of four steps ends at the third one, because the item that the second
one leads to is null and has no members.  The beginning of two steps leads to that item. -/
theorem resolve_names_first_dead_end_in_null :
    (object [("a", array [ofInt 4, null])]).resolve [.key "a", .index 1] = .ok null ∧
      (object [("a", array [ofInt 4, null])]).resolve [.key "a", .index 1, .key "x", .pastEnd] =
        .error (.typeMismatch [.key "a", .index 1, .key "x"] .null) ∧
      ∃ node step, [Step.key "a", .index 1, .key "x", .pastEnd][2]? = some step ∧
        (object [("a", array [ofInt 4, null])]).select [.key "a", .index 1] = some node ∧
        .typeMismatch [.key "a", .index 1, .key "x"] .null =
          node.deadEnd [.key "a", .index 1, .key "x"] step := by
  have hitem : (object [("a", array [ofInt 4, null])]).select [.key "a", .index 1] = some null := rfl
  have herror : (object [("a", array [ofInt 4, null])]).resolve
      [.key "a", .index 1, .key "x", .pastEnd] =
        .error (.typeMismatch [.key "a", .index 1, .key "x"] .null) := rfl
  have hfound := ((resolve_names_first_dead_end (object [("a", array [ofInt 4, null])])
    [.key "a", .index 1]).1 null).mp hitem
  obtain ⟨k, node, step, -, hstep, hnode, -, honly, hdead, -⟩ :=
    (resolve_names_first_dead_end (object [("a", array [ofInt 4, null])])
      [.key "a", .index 1, .key "x", .pastEnd]).2 _ herror
  obtain rfl : 3 = k := honly 3 null (by decide) rfl rfl
  exact ⟨hfound, herror, node, step, hstep, hnode, hdead⟩

end Json

end JsonEdit
