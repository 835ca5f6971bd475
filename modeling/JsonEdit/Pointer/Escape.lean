/-!
# Escapes in pointer text

A slash separates the segments of a pointer text, so a slash in a name is written
`~1`, and a tilde is written `~0`.  To read a segment, the slashes are put back first
and the tildes after them, so that `~01` stands for `~1`.  A tilde with no zero or
one behind it stands for itself.
-/

namespace JsonEdit.Pointer

/-- One character of a written segment. -/
def escapeChar (c : Char) : List Char :=
  if c = '~' then ['~', '0'] else if c = '/' then ['~', '1'] else [c]

/-- The written form of a name. -/
def escape (name : List Char) : List Char := name.flatMap escapeChar

/-- Puts the slashes back. -/
def restoreSlashes : List Char → List Char
  | '~' :: '1' :: rest => '/' :: restoreSlashes rest
  | c :: rest => c :: restoreSlashes rest
  | [] => []

/-- Puts the tildes back. -/
def restoreTildes : List Char → List Char
  | '~' :: '0' :: rest => '~' :: restoreTildes rest
  | c :: rest => c :: restoreTildes rest
  | [] => []

/-- The name that a segment stands for. -/
def unescape (segment : List Char) : List Char := restoreTildes (restoreSlashes segment)

/-! ## Reading what was written -/

theorem escape_cons (c : Char) (name : List Char) :
    escape (c :: name) = escapeChar c ++ escape name := rfl

/-- A character that is not a tilde stands for itself while slashes are put back. -/
theorem restoreSlashes_cons {c : Char} (hc : c ≠ '~') (rest : List Char) :
    restoreSlashes (c :: rest) = c :: restoreSlashes rest := by
  rw [restoreSlashes.eq_def]
  split <;> simp_all

/-- A character that is not a tilde stands for itself while tildes are put back. -/
theorem restoreTildes_cons {c : Char} (hc : c ≠ '~') (rest : List Char) :
    restoreTildes (c :: rest) = c :: restoreTildes rest := by
  rw [restoreTildes.eq_def]
  split <;> simp_all

/-- A character that is not a tilde stands for itself. -/
theorem unescape_cons {c : Char} (hc : c ≠ '~') (rest : List Char) :
    unescape (c :: rest) = c :: unescape rest := by
  rw [unescape, restoreSlashes_cons hc, restoreTildes_cons hc, unescape]

/-- The tilde is put back although the pair is looked at twice. -/
theorem unescape_zero (rest : List Char) : unescape ('~' :: '0' :: rest) = '~' :: unescape rest := by
  have hslashes : restoreSlashes ('~' :: '0' :: rest) = '~' :: '0' :: restoreSlashes rest := by
    rw [restoreSlashes, restoreSlashes_cons (by decide)]
    simp
  rw [unescape, hslashes, restoreTildes, unescape]

theorem unescape_one (rest : List Char) : unescape ('~' :: '1' :: rest) = '/' :: unescape rest := by
  rw [unescape, restoreSlashes, restoreTildes_cons (by decide), unescape]

theorem unescape_escape (name : List Char) : unescape (escape name) = name := by
  induction name with
  | nil => rfl
  | cons c rest ih =>
    rw [escape_cons, escapeChar]
    split
    · next htilde => simp only [List.cons_append, List.nil_append, unescape_zero, ih, htilde]
    · next htilde =>
      split
      · next hslash => simp only [List.cons_append, List.nil_append, unescape_one, ih, hslash]
      · rw [List.cons_append, List.nil_append, unescape_cons htilde, ih]

end JsonEdit.Pointer
