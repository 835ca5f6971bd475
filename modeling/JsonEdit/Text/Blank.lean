/-!
# White space

The characters that Unicode gives the property White_Space, and the removal of
such characters from both ends of a text.  Format characters that merely look
empty, such as U+200B and U+FEFF, are not white space.
-/

namespace JsonEdit.Text

/-- Whether a character has the Unicode property White_Space. -/
def isBlank (c : Char) : Bool :=
  let n := c.toNat
  (0x9 ≤ n && n ≤ 0xD) || n == 0x20 || n == 0x85 || n == 0xA0 || n == 0x1680 ||
    (0x2000 ≤ n && n ≤ 0x200A) || n == 0x2028 || n == 0x2029 || n == 0x202F ||
    n == 0x205F || n == 0x3000

/-- Removes the blanks at both ends. -/
def trimChars (cs : List Char) : List Char :=
  ((cs.dropWhile isBlank).reverse.dropWhile isBlank).reverse

/-- Removes the blanks at both ends of a text. -/
def trim (s : String) : String := String.ofList (trimChars s.toList)

/-- Whether a text holds blanks only, or nothing at all. -/
def allBlank (cs : List Char) : Bool := cs.all isBlank

end JsonEdit.Text
