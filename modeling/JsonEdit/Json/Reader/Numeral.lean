import JsonEdit.Json.Reader.Fault
import JsonEdit.Number.Basic

/-!
# Reading a number

A number is read one digit at a time as a sign, a significand below `2 ^ 64` and an
exponent of ten.  Digits that the significand cannot take are dropped: one in front
of the point adds one to the exponent, one behind it changes nothing, nor do those
after it.  A number without point and exponent is an integer if it fits in 64 bits,
with or without a sign; everything else is a double.  This, like the rest of the
reader, is an assumed behaviour of the format library.
-/

namespace JsonEdit.Json.Reader

/-- How much of a number has been read after its sign. -/
inductive Digits where
  /-- Nothing; a digit must follow. -/
  | start
  /-- A zero, which no other digit may follow. -/
  | zero
  /-- Digits in front of the point. -/
  | whole (significand : Nat)
  /-- Digits in front of the point, so many at the end dropped. -/
  | dropped (significand exponent : Nat)
  /-- The point; a digit must follow. -/
  | point (significand : Nat) (exponent : Int)
  /-- Digits behind the point. -/
  | fraction (significand : Nat) (exponent : Int)
  /-- Digits behind the point, the last ones dropped. -/
  | cut (significand : Nat) (exponent : Int)
  /-- The mark of an exponent; a sign or a digit must follow. -/
  | mark (significand : Nat) (exponent : Int)
  /-- The sign of an exponent; a digit must follow. -/
  | sign (significand : Nat) (exponent : Int) (down : Bool)
  /-- Digits of an exponent, with the value they have. -/
  | power (significand : Nat) (exponent : Int) (down : Bool) (written : Nat)
  /-- Digits of an exponent that leaves nothing but a zero. -/
  | vanished
deriving DecidableEq, Repr

/-- A number that is being read. -/
structure Numeral where
  negative : Bool
  digits : Digits
deriving DecidableEq, Repr

namespace Digits

/-- The greatest significand, `2 ^ 64 - 1`. -/
def greatestSignificand : Nat := 0xFFFFFFFFFFFFFFFF

/-- The greatest significand of a negative integer, `2 ^ 63`. -/
def greatestNegative : Nat := 0x8000000000000000

/-- The greatest exponent that can be written, `2 ^ 31 - 1`. -/
def greatestWritten : Nat := 0x7FFFFFFF

/-- The value of a decimal digit. -/
def value (c : Char) : Nat := c.toNat - '0'.toNat

/-- Takes a digit behind the point, or drops it and those after it. -/
def takeFraction (significand : Nat) (exponent : Int) (c : Char) : Digits :=
  let longer := significand * 10 + value c
  if longer ≤ greatestSignificand then fraction longer (exponent - 1)
  else cut significand exponent

/-- Takes a point or the mark of an exponent after digits, if it is one. -/
def afterDigits? (significand : Nat) (exponent : Int) (c : Char) : Option Digits :=
  if c = '.' then some (point significand exponent)
  else if c = 'e' ∨ c = 'E' then some (mark significand exponent)
  else none

/-- Takes the mark of an exponent after the digits behind the point, if it is one. -/
def afterFraction? (significand : Nat) (exponent : Int) (c : Char) : Option Digits :=
  if c = 'e' ∨ c = 'E' then some (mark significand exponent) else none

/-- Takes one more digit of a written exponent.  A number with an exponent that is too
great is zero if the exponent is negative or the significand zero. -/
def takePower (significand : Nat) (exponent : Int) (down : Bool) (written : Nat) (c : Char) :
    Except Refusal Digits :=
  let longer := written * 10 + value c
  if longer ≤ greatestWritten then .ok (power significand exponent down longer)
  else if significand = 0 ∨ down then .ok vanished
  else refuse .numberOutOfRange

/-- Takes the next character; none says that it does not belong to the number. -/
def take? (c : Char) : Digits → Option (Except Refusal Digits)
  | start =>
    some (if c = '0' then .ok zero
      else if c.isDigit then .ok (whole (value c))
      else refuse .badNumber)
  | zero => if c.isDigit then some (refuse .badNumber) else (afterDigits? 0 0 c).map .ok
  | whole significand =>
    if c.isDigit then
      let longer := significand * 10 + value c
      some (.ok (if longer ≤ greatestSignificand then whole longer else dropped significand 1))
    else (afterDigits? significand 0 c).map .ok
  | dropped significand exponent =>
    if c.isDigit then some (.ok (dropped significand (exponent + 1)))
    else (afterDigits? significand exponent c).map .ok
  | point significand exponent =>
    some (if c.isDigit then .ok (takeFraction significand exponent c) else refuse .badNumber)
  | fraction significand exponent =>
    if c.isDigit then some (.ok (takeFraction significand exponent c))
    else (afterFraction? significand exponent c).map .ok
  | cut significand exponent =>
    if c.isDigit then some (.ok (cut significand exponent))
    else (afterFraction? significand exponent c).map .ok
  | mark significand exponent =>
    some (if c = '+' then .ok (sign significand exponent false)
      else if c = '-' then .ok (sign significand exponent true)
      else if c.isDigit then takePower significand exponent false 0 c
      else refuse .badNumber)
  | sign significand exponent down =>
    some (if c.isDigit then takePower significand exponent down 0 c else refuse .badNumber)
  | power significand exponent down written =>
    if c.isDigit then some (takePower significand exponent down written c) else none
  | vanished => if c.isDigit then some (.ok vanished) else none

end Digits

namespace Numeral

/-- The number that starts with this character, if one can. -/
def start? (c : Char) : Option Numeral :=
  if c = '-' then some ⟨true, .start⟩
  else if c = '0' then some ⟨false, .zero⟩
  else if c.isDigit then some ⟨false, .whole (Digits.value c)⟩
  else none

/-- Takes the next character; none says that it does not belong to the number. -/
def take? (c : Char) (n : Numeral) : Option (Except Refusal Numeral) :=
  (n.digits.take? c).map fun taken => taken.map fun digits => ⟨n.negative, digits⟩

/-- The double for a sign, a significand and an exponent. -/
def double (negative : Bool) (significand : Nat) (exponent : Int) : Except Fault Number :=
  match Double.ofScientific? negative significand exponent with
  | some x => .ok (.double x)
  | none => .error .numberOutOfRange

/-- The number without point and exponent: an integer if it fits in 64 bits.  The zero
with a minus sign is a double, since integers have one zero only. -/
def whole (negative : Bool) (significand : Nat) : Except Fault Number :=
  if !negative then .ok (.int significand)
  else if significand = 0 ∨ Digits.greatestNegative < significand then double true significand 0
  else .ok (.int (-significand))

/-- The number that has been read, if it is complete. -/
def finish (n : Numeral) : Except Fault Number :=
  match n.digits with
  | .start | .point _ _ | .mark _ _ | .sign _ _ _ => .error .endInValue
  | .zero => whole n.negative 0
  | .whole significand => whole n.negative significand
  | .dropped significand exponent => double n.negative significand exponent
  | .fraction significand exponent => double n.negative significand exponent
  | .cut significand exponent => double n.negative significand exponent
  | .power significand exponent down written =>
    double n.negative significand (if down then exponent - written else exponent + written)
  | .vanished => double n.negative 0 0

end Numeral

end JsonEdit.Json.Reader
