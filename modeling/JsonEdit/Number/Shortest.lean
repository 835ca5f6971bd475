import JsonEdit.Number.Double

/-!
# Shortest digits of a double

The digits that a double is written with: the fewest whose value has that double as
its nearest, and of several with as few digits the closest to the double.  For each
number of digits only two decimals can be meant, the neighbours of the exact value
on the grid of decimals of that length.  That the writer's library prints these digits
is assumed; how it finds them is not modelled.
-/

namespace JsonEdit

/-- The decimal `coefficient * 10 ^ exponent`. -/
structure Decimal where
  coefficient : Nat
  exponent : Int
deriving DecidableEq, Repr

namespace Decimal

/-- The exact value of a decimal. -/
def value (d : Decimal) : Ratio := (Ratio.ofNat d.coefficient).scale 10 d.exponent

/-- Whether the double nearest to the decimal has this ordinal. -/
def readsAs (d : Decimal) (ordinal : Nat) : Bool := Double.nearestOrdinal d.value == ordinal

end Decimal

namespace Double

/-- The decimal on the grid with this exponent that is written for a double: the
nearer of the two neighbours of its value that read back, the even one if both are
equally near.  There is none if neither reads back. -/
def onGrid? (ordinal : Nat) (exponent : Int) : Option Decimal :=
  let scaled := (magnitude ordinal).scale 10 (-exponent)
  let below : Decimal := ⟨scaled.floor, exponent⟩
  let above : Decimal := ⟨scaled.floor + 1, exponent⟩
  match below.readsAs ordinal, above.readsAs ordinal with
  | true, true => some ⟨scaled.nearestEven, exponent⟩
  | true, false => some below
  | false, true => some above
  | false, false => none

/-- The number of digits that tell any two doubles apart. -/
def enoughDigits : Nat := 17

/-- The shortest decimal that reads as the positive double with this ordinal.  The
value on the finest grid stands in for a search without a result, which does not
happen: seventeen digits tell all doubles apart. -/
def shortest (ordinal : Nat) : Decimal :=
  let top := (magnitude ordinal).log10
  let finest := top + 1 - enoughDigits
  ((List.range enoughDigits).findSome? fun (more : Nat) => onGrid? ordinal (top - more)).getD
    ⟨((magnitude ordinal).scale 10 (-finest)).nearestEven, finest⟩

end Double

end JsonEdit
