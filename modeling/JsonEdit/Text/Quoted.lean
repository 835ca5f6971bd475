import JsonEdit.Text.Unprintable

/-!
# Quoted text in messages

A message shows a text between double quotes, so that its ends and every character
in it can be seen.  Quotes and backslashes take a backslash, four controls have a
letter, and any other character without a glyph of its own is shown by its code
point.
-/

namespace JsonEdit.Text

/-- One character of a quoted text. -/
def quotedChar (c : Char) : List Char :=
  match c with
  | '\x00' => ['\\', '0']
  | '\t' => ['\\', 't']
  | '\r' => ['\\', 'r']
  | '\n' => ['\\', 'n']
  | '"' => ['\\', '"']
  | '\\' => ['\\', '\\']
  | c =>
    if isUnprintable c then ['\\', 'u', '\x7b'] ++ Nat.toDigits 16 c.toNat ++ ['\x7d'] else [c]

/-- A text between double quotes, every character of it visible. -/
def quoted (s : String) : String :=
  String.ofList ('"' :: s.toList.flatMap quotedChar ++ ['"'])

end JsonEdit.Text
