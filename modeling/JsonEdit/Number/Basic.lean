import JsonEdit.Number.Shortest

/-!
# Numbers

A number is an integer or a double.  The text of a number tells the two apart: that of
an integer has neither a point nor an exponent, that of a double has one of them.  So
an integer never equals a double, whatever their values.

Numbers, how they are told apart and their texts belong to the format library that
`JsonEdit.Json.Reader` and `JsonEdit.Json.Writer` restate, and are assumed with it.
-/

namespace JsonEdit

/-- A number of a document. -/
inductive Number where
  | int (value : Int)
  | double (value : Double)
deriving DecidableEq

namespace Number

/-- The least exponent of ten at which the first digit of a number can stand for the
number to be written in positional notation. -/
def plainFrom : Int := -5

/-- The least exponent of ten above those of positional notation. -/
def plainBelow : Int := 16

/-- The first digit, and after a point the others if there are any. -/
def withPoint : List Char → List Char
  | [] => []
  | [d] => [d]
  | d :: ds => d :: '.' :: ds

/-- Digits in positional notation, with at least one digit on each side of the point.
The first digit has the place of `10 ^ place`. -/
def plainText (digits : List Char) (place : Int) : List Char :=
  match place with
  | .ofNat whole =>
    let padded := digits ++ List.replicate (whole + 1 - digits.length) '0'
    let fraction := padded.drop (whole + 1)
    padded.take (whole + 1) ++ '.' :: (if fraction.isEmpty then ['0'] else fraction)
  | .negSucc zeros => '0' :: '.' :: (List.replicate zeros '0' ++ digits)

/-- Digits with an exponent, whose sign is always written. -/
def exponentText (digits : List Char) (place : Int) : List Char :=
  withPoint digits ++ 'e' :: (if place < 0 then '-' else '+') :: Text.decimal place.natAbs

/-- The text of the magnitude with this ordinal. -/
def magnitudeText (ordinal : Nat) : List Char :=
  if ordinal = 0 then ['0', '.', '0']
  else
    let shortest := Double.shortest ordinal
    let written := Text.decimal shortest.coefficient
    let place := shortest.exponent + written.length - 1
    let digits := (written.reverse.dropWhile (· == '0')).reverse
    if plainFrom ≤ place ∧ place < plainBelow then plainText digits place
    else exponentText digits place

/-- The text of a number. -/
def text : Number → List Char
  | int n => Text.decimalInt n
  | double x => (if x.negative then ['-'] else []) ++ magnitudeText x.ordinal

/-- Whether two numbers are equal: integers by value, doubles by value. -/
def same : Number → Number → Bool
  | int m, int n => m == n
  | double x, double y => x.sameValue y
  | _, _ => false

end Number

end JsonEdit
