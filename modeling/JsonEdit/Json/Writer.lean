import JsonEdit.Json.Basic

/-!
# Writing values

The text of a value in two layouts.  The compact one has no white space.  The
indented one puts every item and every member on a line of its own, two spaces
further in than the brackets around it, and a space after each colon.  An empty
array or object is a pair of brackets in both.  Members keep their order.

As with the reader, both layouts are those of a text format library that is not part
of this one, and that it writes them so is an assumption of the development.
-/

namespace JsonEdit.Json

/-- How a text is laid out. -/
inductive Layout where
  | compact
  | indented
deriving DecidableEq, Repr

namespace Layout

/-- What stands before an item or a closing bracket that is this many containers deep. -/
def lineBreak : Layout → Nat → List Char
  | compact, _ => []
  | indented, depth => '\n' :: List.replicate (2 * depth) ' '

/-- What stands between the name of a member and its value. -/
def colon : Layout → List Char
  | compact => [':']
  | indented => [':', ' ']

end Layout

/-- One character of a string: quotes, backslashes and controls are escaped, and
nothing else. -/
def escapeChar (c : Char) : List Char :=
  match c with
  | '"' => ['\\', '"']
  | '\\' => ['\\', '\\']
  | '\x08' => ['\\', 'b']
  | '\x0c' => ['\\', 'f']
  | '\n' => ['\\', 'n']
  | '\r' => ['\\', 'r']
  | '\t' => ['\\', 't']
  | c =>
    if c.toNat < 0x20 then
      ['\\', 'u', '0', '0', (c.toNat / 16).digitChar, (c.toNat % 16).digitChar]
    else [c]

/-- A string between quotes. -/
def stringText (s : String) : List Char := '"' :: s.toList.flatMap escapeChar ++ ['"']

mutual

/-- The text of a value that is inside `depth` containers. -/
def text (layout : Layout) (depth : Nat) : Json → List Char
  | null => ['n', 'u', 'l', 'l']
  | bool true => ['t', 'r', 'u', 'e']
  | bool false => ['f', 'a', 'l', 's', 'e']
  | number n => n.text
  | string s => stringText s
  | array [] => ['[', ']']
  | array (x :: xs) =>
    '[' :: layout.lineBreak (depth + 1) ++ text layout (depth + 1) x ++
      itemsText layout depth xs
  | object [] => ['\x7b', '\x7d']
  | object ((name, x) :: ms) =>
    '\x7b' :: layout.lineBreak (depth + 1) ++ stringText name ++ layout.colon ++
      text layout (depth + 1) x ++ membersText layout depth ms

/-- The items after the first, each after a comma, and the closing bracket. -/
def itemsText (layout : Layout) (depth : Nat) : List Json → List Char
  | [] => layout.lineBreak depth ++ [']']
  | x :: xs =>
    ',' :: layout.lineBreak (depth + 1) ++ text layout (depth + 1) x ++
      itemsText layout depth xs

/-- The members after the first, each after a comma, and the closing bracket. -/
def membersText (layout : Layout) (depth : Nat) : List (String × Json) → List Char
  | [] => layout.lineBreak depth ++ ['\x7d']
  | (name, x) :: ms =>
    ',' :: layout.lineBreak (depth + 1) ++ stringText name ++ layout.colon ++
      text layout (depth + 1) x ++ membersText layout depth ms

end

/-- The text of a value without white space. -/
def compact (x : Json) : String := String.ofList (text .compact 0 x)

/-- The text of a value with one line for each item and member. -/
def pretty (x : Json) : String := String.ofList (text .indented 0 x)

end JsonEdit.Json
