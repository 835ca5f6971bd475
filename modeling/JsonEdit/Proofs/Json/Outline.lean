import JsonEdit.Proofs.Json.Shape
import JsonEdit.Proofs.Text.Trim
import JsonEdit.Json.Writer

/-!
# The outline of a written value

Two things about the text of a value can be seen without reading it: how it begins and ends, and
how deep its brackets are nested.  This module says so for values whose numbers are integers, in
both layouts.

There are two groups.

* Ends.  No written value begins or ends with a blank, so trimming leaves it alone.
* Nesting.  `nesting` counts the brackets of a text that are open at once, apart from those in
  strings.  `nesting_text` says that this is the depth of the value.  The count goes from left to
  right, so the statements are about the text of a value with any text behind it.
-/

namespace JsonEdit.Json

/-! ## Ends -/

open Text

theorem isBlank_of_isDigit {c : Char} (hc : c.isDigit = true) : isBlank c = false := by
  have hrange : 48 ≤ c.toNat ∧ c.toNat ≤ 57 := Char.isDigit_iff_toNat.mp hc
  simp only [isBlank, Bool.or_eq_false_iff, Bool.and_eq_false_iff, decide_eq_false_iff_not,
    beq_eq_false_iff_ne]
  omega

theorem tight_decimal (n : Nat) : Tight (decimal n) where
  head _ hc := isBlank_of_isDigit (isDigit_of_mem_decimal (List.mem_of_mem_head? hc))
  last _ hc := isBlank_of_isDigit (isDigit_of_mem_decimal (List.mem_of_mem_getLast? hc))

theorem tight_decimalInt (i : Int) : Tight (decimalInt i) := by
  cases i with
  | ofNat n => exact tight_decimal n
  | negSucc n =>
    refine ⟨?_, ?_⟩
    · intro c hc
      cases hc
      rfl
    · intro c hc
      rw [decimalInt, List.getLast?_cons_of_ne_nil (decimal_ne_nil _)] at hc
      exact (tight_decimal (n + 1)).last c hc

/-- A text is tight if its first and its last character are no blanks. -/
theorem tight_of_ends {c d : Char} (hc : isBlank c = false) (hd : isBlank d = false)
    (cs : List Char) : Tight (c :: cs ++ [d]) where
  head _ he := by
    cases he
    exact hc
  last _ he := by
    rw [List.getLast?_concat] at he
    cases he
    exact hd

theorem exists_itemsText_concat (layout : Layout) (level : Nat) (xs : List Json) :
    ∃ front, itemsText layout level xs = front ++ [']'] := by
  induction xs with
  | nil => exact ⟨layout.lineBreak level, by rw [itemsText]⟩
  | cons x xs ih =>
    obtain ⟨front, hfront⟩ := ih
    exact ⟨_, by rw [itemsText, hfront, ← List.append_assoc]⟩

theorem exists_membersText_concat (layout : Layout) (level : Nat) (ms : List (String × Json)) :
    ∃ front, membersText layout level ms = front ++ ['\x7d'] := by
  induction ms with
  | nil => exact ⟨layout.lineBreak level, by rw [membersText]⟩
  | cons entry ms ih =>
    obtain ⟨front, hfront⟩ := ih
    exact ⟨_, by rw [membersText, hfront, ← List.append_assoc]⟩

/-- No written value begins or ends with a blank. -/
theorem tight_text (layout : Layout) (level : Nat) {x : Json} (hx : x.Integers64) :
    Tight (text layout level x) := by
  cases x with
  | null => exact tight_of_ends (by decide) (by decide) ['u', 'l']
  | bool b =>
    cases b with
    | false => exact tight_of_ends (by decide) (by decide) ['a', 'l', 's']
    | true => exact tight_of_ends (by decide) (by decide) ['r', 'u']
  | number n =>
    obtain ⟨i, hi, -⟩ := hx n rfl
    rw [hi]
    exact tight_decimalInt i
  | string s => exact tight_of_ends (by decide) (by decide) _
  | array items =>
    cases items with
    | nil => exact tight_of_ends (by decide) (by decide) []
    | cons x xs =>
      obtain ⟨front, hfront⟩ := exists_itemsText_concat layout level xs
      rw [text, hfront, ← List.append_assoc]
      exact tight_of_ends (by decide) (by decide) _
  | object members =>
    cases members with
    | nil => exact tight_of_ends (by decide) (by decide) []
    | cons entry ms =>
      obtain ⟨front, hfront⟩ := exists_membersText_concat layout level ms
      rw [text, hfront, ← List.append_assoc]
      exact tight_of_ends (by decide) (by decide) _

/-! ## Nesting -/

/-- Where a character of a text stands: outside of every string, in a string, or in a string
behind a backslash. -/
inductive Zone where
  | outside
  | inside
  | escaped
deriving DecidableEq

/-- Where the character behind this one stands. -/
def Zone.next (c : Char) : Zone → Zone
  | outside => if c = '"' then inside else outside
  | inside => if c = '"' then outside else if c = '\\' then escaped else inside
  | escaped => inside

/-- How many brackets are open behind a character, which opens or closes one outside of strings
only. -/
def Zone.opened (c : Char) (before : Nat) : Zone → Nat
  | outside =>
    if c = '[' ∨ c = '\x7b' then before + 1
    else if c = ']' ∨ c = '\x7d' then before - 1
    else before
  | inside | escaped => before

/-- The greatest number of brackets that are open at once from here on. -/
def nestingFrom (zone : Zone) (opened : Nat) : List Char → Nat
  | [] => opened
  | c :: rest => max opened (nestingFrom (zone.next c) (zone.opened c opened) rest)

/-- The greatest number of containers of a text that are nested. -/
def nesting (s : String) : Nat := nestingFrom .outside 0 s.toList

theorem le_nestingFrom (zone : Zone) (opened : Nat) (cs : List Char) :
    opened ≤ nestingFrom zone opened cs := by
  cases cs with
  | nil => exact Nat.le_refl _
  | cons c rest => exact Nat.le_max_left _ _

/-- A character that opens and closes nothing. -/
theorem nestingFrom_cons {zone next : Zone} {opened : Nat} {c : Char}
    (hnext : zone.next c = next) (hopened : zone.opened c opened = opened) (rest : List Char) :
    nestingFrom zone opened (c :: rest) = nestingFrom next opened rest := by
  rw [nestingFrom, hnext, hopened]
  exact Nat.max_eq_right (le_nestingFrom _ _ _)

/-- Whether a character is neither a bracket nor a quote. -/
def isFlat (c : Char) : Bool :=
  c != '"' && c != '[' && c != '\x7b' && c != ']' && c != '\x7d'

/-- Outside of strings, a text without brackets and quotes is skipped. -/
theorem nestingFrom_flat {cs : List Char} (hcs : cs.all isFlat = true) (opened : Nat)
    (rest : List Char) :
    nestingFrom .outside opened (cs ++ rest) = nestingFrom .outside opened rest := by
  induction cs with
  | nil => rfl
  | cons c cs ih =>
    rw [List.all_cons, Bool.and_eq_true] at hcs
    have hc := hcs.1
    simp only [isFlat, Bool.and_eq_true, bne_iff_ne] at hc
    have hnext : Zone.outside.next c = .outside := by simp [Zone.next, hc]
    have hopened : Zone.outside.opened c opened = opened := by simp [Zone.opened, hc]
    rw [List.cons_append, nestingFrom_cons hnext hopened, ih hcs.2]

theorem isFlat_of_isDigit {c : Char} (hc : c.isDigit = true) : isFlat c = true := by
  have hother : ∀ d : Char, d.isDigit = false → c ≠ d := by
    intro d hd heq
    rw [heq, hd] at hc
    cases hc
  simp [isFlat, hother '"' rfl, hother '[' rfl, hother '\x7b' rfl, hother ']' rfl,
    hother '\x7d' rfl]

theorem all_isFlat_decimal (n : Nat) : (decimal n).all isFlat = true :=
  List.all_eq_true.mpr fun _ hc => isFlat_of_isDigit (isDigit_of_mem_decimal hc)

theorem all_isFlat_decimalInt (i : Int) : (decimalInt i).all isFlat = true := by
  cases i with
  | ofNat n => exact all_isFlat_decimal n
  | negSucc n =>
    rw [decimalInt, List.all_cons, all_isFlat_decimal]
    rfl

theorem all_isFlat_lineBreak (layout : Layout) (level : Nat) :
    (layout.lineBreak level).all isFlat = true := by
  cases layout with
  | compact => rfl
  | indented =>
    rw [Layout.lineBreak, List.all_cons, List.all_replicate]
    cases 2 * level <;> rfl

theorem all_isFlat_colon (layout : Layout) : layout.colon.all isFlat = true := by
  cases layout <;> rfl

/-- In a string, a character that is neither a quote nor a backslash is skipped. -/
theorem nestingFrom_inside {c : Char} (hquote : c ≠ '"') (hbackslash : c ≠ '\\') (opened : Nat)
    (rest : List Char) :
    nestingFrom .inside opened (c :: rest) = nestingFrom .inside opened rest :=
  nestingFrom_cons (by simp [Zone.next, hquote, hbackslash]) rfl rest

/-- A written character of a string does not end the string. -/
theorem nestingFrom_escapeChar (c : Char) (opened : Nat) (rest : List Char) :
    nestingFrom .inside opened (escapeChar c ++ rest) = nestingFrom .inside opened rest := by
  have hescape : ∀ (d : Char) (cs : List Char),
      nestingFrom .inside opened ('\\' :: d :: cs) = nestingFrom .inside opened cs := by
    intro d cs
    have hfirst : Zone.inside.next '\\' = .escaped := rfl
    have hsecond : Zone.escaped.next d = .inside := rfl
    rw [nestingFrom_cons hfirst rfl, nestingFrom_cons hsecond rfl]
  have hhex : ∀ n < 16, n.digitChar ≠ '"' ∧ n.digitChar ≠ '\\' := by decide
  unfold escapeChar
  split
  case h_8 hquote hbackslash _ _ _ _ _ =>
    split
    next hcontrol =>
      obtain ⟨hhigh, hhigh'⟩ := hhex (c.toNat / 16) (by omega)
      obtain ⟨hlow, hlow'⟩ := hhex (c.toNat % 16) (by omega)
      simp only [List.cons_append, List.nil_append]
      rw [hescape, nestingFrom_inside (by decide) (by decide),
        nestingFrom_inside (by decide) (by decide), nestingFrom_inside hhigh hhigh',
        nestingFrom_inside hlow hlow']
    next => exact nestingFrom_inside hquote hbackslash opened rest
  all_goals exact hescape _ rest

/-- A written string opens and closes nothing. -/
theorem nestingFrom_stringText (s : String) (opened : Nat) (rest : List Char) :
    nestingFrom .outside opened (stringText s ++ rest) = nestingFrom .outside opened rest := by
  have hchars : ∀ cs : List Char,
      nestingFrom .inside opened (cs.flatMap escapeChar ++ '"' :: rest) =
        nestingFrom .outside opened rest := by
    intro cs
    induction cs with
    | nil => exact nestingFrom_cons rfl rfl rest
    | cons c cs ih => rw [List.flatMap_cons, List.append_assoc, nestingFrom_escapeChar, ih]
  have hquote : Zone.outside.next '"' = .inside := rfl
  rw [stringText, List.cons_append, List.cons_append, List.append_assoc, List.singleton_append,
    nestingFrom_cons hquote rfl, hchars]

/-! ### The walk -/

theorem nestingFrom_open {c : Char} (hc : c = '[' ∨ c = '\x7b') (opened : Nat)
    (rest : List Char) :
    nestingFrom .outside opened (c :: rest) = nestingFrom .outside (opened + 1) rest := by
  have hle := le_nestingFrom .outside (opened + 1) rest
  have hstep : nestingFrom .outside opened (c :: rest) =
      max opened (nestingFrom .outside (opened + 1) rest) := by
    rcases hc with h | h <;> rw [h] <;> rfl
  omega

theorem nestingFrom_close {c : Char} (hc : c = ']' ∨ c = '\x7d') (opened : Nat)
    (rest : List Char) :
    nestingFrom .outside (opened + 1) (c :: rest) =
      max (opened + 1) (nestingFrom .outside opened rest) := by
  rcases hc with h | h <;> rw [h] <;> rfl

mutual

/-- The text of a value is nested as deep as the value, and closes what it opens. -/
theorem nestingFrom_text (layout : Layout) : ∀ (x : Json) (level opened : Nat) (rest : List Char),
    x.Integers64 →
    nestingFrom .outside opened (text layout level x ++ rest) =
      max (opened + x.depth) (nestingFrom .outside opened rest)
  | null, level, opened, rest, _ => by
    rw [text, nestingFrom_flat rfl]
    exact (Nat.max_eq_right (le_nestingFrom .outside opened rest)).symm
  | bool true, level, opened, rest, _ => by
    rw [text, nestingFrom_flat rfl]
    exact (Nat.max_eq_right (le_nestingFrom .outside opened rest)).symm
  | bool false, level, opened, rest, _ => by
    rw [text, nestingFrom_flat rfl]
    exact (Nat.max_eq_right (le_nestingFrom .outside opened rest)).symm
  | number n, level, opened, rest, hx => by
    obtain ⟨i, hi, -⟩ := hx n rfl
    rw [hi, text, Number.text, nestingFrom_flat (all_isFlat_decimalInt i)]
    exact (Nat.max_eq_right (le_nestingFrom .outside opened rest)).symm
  | string s, level, opened, rest, _ => by
    rw [text, nestingFrom_stringText]
    exact (Nat.max_eq_right (le_nestingFrom .outside opened rest)).symm
  | array [], level, opened, rest, _ => by
    rw [text, List.cons_append, List.singleton_append, nestingFrom_open (.inl rfl),
      nestingFrom_close (.inl rfl)]
    rfl
  | array (x :: xs), level, opened, rest, hx => by
    rw [text, List.append_assoc, List.append_assoc, List.cons_append, nestingFrom_open (.inl rfl),
      nestingFrom_flat (all_isFlat_lineBreak _ _), nestingFrom_text layout x _ _ _ hx.2.1,
      nestingFrom_itemsText layout xs level opened rest hx.2.2, depth, depthItems]
    omega
  | object [], level, opened, rest, _ => by
    rw [text, List.cons_append, List.singleton_append, nestingFrom_open (.inr rfl),
      nestingFrom_close (.inr rfl)]
    rfl
  | object ((name, x) :: ms), level, opened, rest, hx => by
    rw [text, List.append_assoc, List.append_assoc, List.append_assoc, List.append_assoc,
      List.cons_append, nestingFrom_open (.inr rfl), nestingFrom_flat (all_isFlat_lineBreak _ _),
      nestingFrom_stringText, nestingFrom_flat (all_isFlat_colon _),
      nestingFrom_text layout x _ _ _ hx.2.1,
      nestingFrom_membersText layout ms level opened rest hx.2.2, depth, depthMembers]
    omega

/-- The items after the first, and the bracket that closes them. -/
theorem nestingFrom_itemsText (layout : Layout) : ∀ (xs : List Json) (level opened : Nat)
    (rest : List Char), EverywhereItems (fun node => ∀ n, node = number n → n.IsInteger64) xs →
    nestingFrom .outside (opened + 1) (itemsText layout level xs ++ rest) =
      max (opened + 1 + depthItems xs) (nestingFrom .outside opened rest)
  | [], level, opened, rest, _ => by
    rw [itemsText, List.append_assoc, nestingFrom_flat (all_isFlat_lineBreak _ _),
      List.singleton_append, nestingFrom_close (.inl rfl)]
    rfl
  | x :: xs, level, opened, rest, hxs => by
    have hcomma : Zone.outside.next ',' = .outside := rfl
    rw [itemsText, List.append_assoc, List.append_assoc, List.cons_append,
      nestingFrom_cons hcomma rfl, nestingFrom_flat (all_isFlat_lineBreak _ _),
      nestingFrom_text layout x _ _ _ hxs.1,
      nestingFrom_itemsText layout xs level opened rest hxs.2, depthItems]
    omega

/-- The members after the first, and the bracket that closes them. -/
theorem nestingFrom_membersText (layout : Layout) : ∀ (ms : List (String × Json))
    (level opened : Nat) (rest : List Char),
    EverywhereMembers (fun node => ∀ n, node = number n → n.IsInteger64) ms →
    nestingFrom .outside (opened + 1) (membersText layout level ms ++ rest) =
      max (opened + 1 + depthMembers ms) (nestingFrom .outside opened rest)
  | [], level, opened, rest, _ => by
    rw [membersText, List.append_assoc, nestingFrom_flat (all_isFlat_lineBreak _ _),
      List.singleton_append, nestingFrom_close (.inr rfl)]
    rfl
  | (name, x) :: ms, level, opened, rest, hms => by
    have hcomma : Zone.outside.next ',' = .outside := rfl
    rw [membersText, List.append_assoc, List.append_assoc, List.append_assoc, List.append_assoc,
      List.cons_append, nestingFrom_cons hcomma rfl, nestingFrom_flat (all_isFlat_lineBreak _ _),
      nestingFrom_stringText, nestingFrom_flat (all_isFlat_colon _),
      nestingFrom_text layout x _ _ _ hms.1,
      nestingFrom_membersText layout ms level opened rest hms.2, depthMembers]
    omega

end

end JsonEdit.Json
