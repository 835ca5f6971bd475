import JsonEdit.Json.Reader.Fault

/-!
# Reading a string

A string is read one character at a time, from the character after its opening quote
to its closing quote.  An escape by code point has four hexadecimal digits, and two
such escapes in a row stand for one character when they are a pair of surrogates; a
surrogate outside such a pair is refused.  This, like the rest of the reader, is an
assumed behaviour of the format library.
-/

namespace JsonEdit.Json.Reader

/-- A string that is being read.  The characters read so far are held with the last
one first. -/
inductive Quotation where
  /-- Between two characters. -/
  | plain (read : List Char)
  /-- After a backslash. -/
  | escape (read : List Char)
  /-- In the digits of a code point, with those seen so far and their size in bytes.
  A leading surrogate may have come right before. -/
  | code (read : List Char) (lead : Option Nat) (digits : List Char) (bytes : Nat)
  /-- After a leading surrogate. -/
  | lead (read : List Char) (surrogate : Nat)
  /-- After a leading surrogate and a backslash. -/
  | leadEscape (read : List Char) (surrogate : Nat)
deriving DecidableEq, Repr

namespace Quotation

/-- The value of a hexadecimal digit of either case. -/
def hexValue? (c : Char) : Option Nat :=
  if c.isDigit then some (c.toNat - '0'.toNat)
  else if 'a' ≤ c ∧ c ≤ 'f' then some (c.toNat - 'a'.toNat + 10)
  else if 'A' ≤ c ∧ c ≤ 'F' then some (c.toNat - 'A'.toNat + 10)
  else none

/-- The number written with four hexadecimal digits. -/
def fourDigits? : List Char → Option Nat
  | [a, b, c, d] => do
    let a ← hexValue? a
    let b ← hexValue? b
    let c ← hexValue? c
    let d ← hexValue? d
    pure (((a * 16 + b) * 16 + c) * 16 + d)
  | _ => none

/-- The character that a letter after a backslash stands for. -/
def escaped? (c : Char) : Option Char :=
  match c with
  | '"' => some '"'
  | '\\' => some '\\'
  | '/' => some '/'
  | 'b' => some '\x08'
  | 'f' => some '\x0c'
  | 'n' => some '\n'
  | 'r' => some '\r'
  | 't' => some '\t'
  | _ => none

/-- Whether a 16-bit unit is a leading surrogate. -/
def isLeading (unit : Nat) : Bool := 0xD800 ≤ unit && unit ≤ 0xDBFF

/-- Whether a 16-bit unit is a trailing surrogate. -/
def isTrailing (unit : Nat) : Bool := 0xDC00 ≤ unit && unit ≤ 0xDFFF

/-- The character of a pair of surrogates. -/
def paired (leading trailing : Nat) : Char :=
  Char.ofNat (0x10000 + (leading - 0xD800) * 0x400 + (trailing - 0xDC00))

/-- Goes on after the digits of a code point. -/
def afterCode (read : List Char) (leading : Option Nat) (unit : Nat) :
    Except Refusal Quotation :=
  match leading with
  | some surrogate =>
    if isTrailing unit then .ok (plain (paired surrogate unit :: read))
    else refuse .unpairedSurrogate
  | none =>
    if isTrailing unit then refuse .unpairedSurrogate
    else if isLeading unit then .ok (lead read unit)
    else .ok (plain (Char.ofNat unit :: read))

/-- Takes a character in the digits of a code point.  The digits end with the fourth
byte, and what they are is asked only then. -/
def takeDigit (read : List Char) (leading : Option Nat) (digits : List Char) (bytes : Nat)
    (c : Char) : Except Refusal Quotation :=
  if bytes + c.utf8Size < 4 then
    .ok (code read leading (digits ++ [c]) (bytes + c.utf8Size))
  else
    match fourDigits? (digits ++ [c]) with
    | some unit => afterCode read leading unit
    | none => .error ⟨.badEscape, 4 - bytes⟩

/-- What a character does to a string that is being read. -/
inductive Step where
  /-- The string goes on. -/
  | more (q : Quotation)
  /-- The string has ended. -/
  | closed (text : String)

/-- Takes the next character. -/
def take (c : Char) : Quotation → Except Refusal Step
  | plain read =>
    if c = '"' then .ok (.closed (String.ofList read.reverse))
    else if c = '\\' then .ok (.more (escape read))
    else if c.toNat < 0x20 then refuse .controlInString
    else .ok (.more (plain (c :: read)))
  | escape read =>
    if c = 'u' then .ok (.more (code read none [] 0))
    else
      match escaped? c with
      | some character => .ok (.more (plain (character :: read)))
      | none => refuse .badEscape
  | code read leading digits bytes => (takeDigit read leading digits bytes c).map .more
  | lead read surrogate =>
    if c = '\\' then .ok (.more (leadEscape read surrogate)) else refuse .missingSurrogate
  | leadEscape read surrogate =>
    if c = 'u' then .ok (.more (code read (some surrogate) [] 0)) else refuse .missingSurrogate

end Quotation

end JsonEdit.Json.Reader
