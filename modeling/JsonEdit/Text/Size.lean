/-!
# The size of a text

Limits and places count the bytes of a text in UTF-8.
-/

namespace JsonEdit.Text

/-- The number of UTF-8 bytes of a text. -/
def byteSize : List Char → Nat
  | [] => 0
  | c :: rest => c.utf8Size + byteSize rest

end JsonEdit.Text
