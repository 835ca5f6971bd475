import JsonEdit.Number.Ratio

/-!
# Doubles

The finite numbers of the binary64 format.  A double is a sign and the place of its
magnitude in the ascending list of all magnitudes, counted from zero.  That place is
also the pattern of the 63 bits below the sign: the eleven high bits hold the
exponent and the low 52 the fraction, so the next magnitude has the next pattern.
How a decimal becomes a double, in one rounding or in several, is assumed of the format
library behind the reader; the result need not be the nearest double.
-/

namespace JsonEdit

/-- The number of finite magnitudes of the binary64 format. -/
def Double.magnitudes : Nat := 0x7FF0000000000000

/-- A finite binary64 number.  Zero has two forms, one for each sign. -/
structure Double where
  negative : Bool
  ordinal : Nat
  finite : ordinal < Double.magnitudes := by decide
deriving DecidableEq

namespace Double

/-- The number of magnitudes with one exponent, `2 ^ 52`. -/
def fractions : Nat := 0x10000000000000

/-- The sign in a pattern of 64 bits, `2 ^ 63`. -/
def signBit : Nat := 0x8000000000000000

/-- The exact value of the magnitude with this ordinal.  The first `2 ^ 52` share
the least exponent; from there on every `2 ^ 52` ordinals the exponent grows by one. -/
def magnitude (ordinal : Nat) : Ratio :=
  if ordinal < fractions then (Ratio.ofNat ordinal).scale 2 (-1074)
  else
    (Ratio.ofNat (fractions + ordinal % fractions)).scale 2 ((ordinal / fractions : Nat) - 1075)

/-- The ordinal of the magnitude nearest to a value; of two that are equally near
the one with the even ordinal.  An ordinal that is not below `magnitudes` says that
the value is out of range. -/
def nearestOrdinal (r : Ratio) : Nat :=
  if r.num = 0 then 0
  else
    let exponent : Int := max (r.log2 - 52) (-1074)
    (exponent + 1074).toNat * fractions + (r.scale 2 (-exponent)).nearestEven

/-- The double with this sign and ordinal, if the ordinal is that of a finite one. -/
def ofOrdinal? (negative : Bool) (ordinal : Nat) : Option Double :=
  if h : ordinal < magnitudes then some ⟨negative, ordinal, h⟩ else none

/-- The double with this pattern of 64 bits; infinities and undefined results have none. -/
def ofBits? (bits : Nat) : Option Double :=
  ofOrdinal? (signBit ≤ bits) (bits % signBit)

/-- Whether two doubles are equal as numbers: the two zeros are. -/
def sameValue (x y : Double) : Bool :=
  (x.negative == y.negative && x.ordinal == y.ordinal) || (x.ordinal == 0 && y.ordinal == 0)

/-- The ordinal of the power of ten with this exponent. -/
def powerOfTen (exponent : Nat) : Nat := nearestOrdinal ((Ratio.ofNat 1).scale 10 exponent)

/-- The rounded product of a magnitude and a power of ten. -/
def timesPowerOfTen (ordinal exponent : Nat) : Nat :=
  nearestOrdinal ((magnitude ordinal).mul (magnitude (powerOfTen exponent)))

/-- The rounded quotient of a magnitude by a power of ten. -/
def overPowerOfTen (ordinal exponent : Nat) : Nat :=
  nearestOrdinal ((magnitude ordinal).div (magnitude (powerOfTen exponent)))

/-- The exponent of the greatest power of ten that is a finite double. -/
def greatestPower : Nat := 308

/-- Divides by the greatest power of ten so many times, unless zero comes first. -/
def overGreatest : (times ordinal : Nat) → Nat
  | 0, ordinal => ordinal
  | times + 1, ordinal =>
    if ordinal = 0 then 0 else overGreatest times (overPowerOfTen ordinal greatestPower)

/-- The magnitude of `significand * 10 ^ exponent`, computed in steps that each round:
the significand first, then one product or quotient by a power of ten.  An exponent
below `-308` takes a quotient for every 308, the last one for what is left.  The
result is not always the nearest magnitude. -/
def ofScientific (significand : Nat) (exponent : Int) : Nat :=
  let start := nearestOrdinal (Ratio.ofNat significand)
  match exponent with
  | .ofNat up =>
    if up ≤ greatestPower then timesPowerOfTen start up
    else if start = 0 then 0 else magnitudes
  | .negSucc below =>
    let times := below / greatestPower
    overPowerOfTen (overGreatest times start) (below + 1 - greatestPower * times)

/-- The double for a sign, a significand and an exponent of ten, if it is in range. -/
def ofScientific? (negative : Bool) (significand : Nat) (exponent : Int) : Option Double :=
  ofOrdinal? negative (ofScientific significand exponent)

end Double

end JsonEdit
