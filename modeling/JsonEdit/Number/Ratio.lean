import JsonEdit.Text.Decimal

/-!
# Non-negative fractions

Exact arithmetic for the conversion between decimal and binary numbers: scaling by
a power of a base, the floors of the logarithms to base two and ten, and rounding
to the nearest natural number.  Fractions are not reduced, and every denominator in
use is positive.
-/

namespace JsonEdit

/-- The fraction `num / den`. -/
structure Ratio where
  num : Nat
  den : Nat
deriving DecidableEq, Repr

namespace Ratio

/-- A natural number as a fraction. -/
def ofNat (n : Nat) : Ratio := ⟨n, 1⟩

/-- The product of two fractions. -/
def mul (r s : Ratio) : Ratio := ⟨r.num * s.num, r.den * s.den⟩

/-- The quotient of two fractions. -/
def div (r s : Ratio) : Ratio := ⟨r.num * s.den, r.den * s.num⟩

/-- `r` times `base` to the power `exponent`. -/
def scale (r : Ratio) (base : Nat) (exponent : Int) : Ratio :=
  match exponent with
  | .ofNat n => ⟨r.num * Nat.pow base n, r.den⟩
  | .negSucc n => ⟨r.num, r.den * Nat.pow base (n + 1)⟩

/-- Whether the value is at least one. -/
def oneLe (r : Ratio) : Bool := r.den ≤ r.num

/-- The greatest natural number that is not above the value. -/
def floor (r : Ratio) : Nat := r.num / r.den

/-- The nearest natural number; the even one of two that are equally near. -/
def nearestEven (r : Ratio) : Nat :=
  let quotient := r.num / r.den
  let twice := 2 * (r.num % r.den)
  if twice < r.den || (twice == r.den && quotient % 2 == 0) then quotient else quotient + 1

/-- The greatest `k` with `2 ^ k` not above the value, which is positive. -/
def log2 (r : Ratio) : Int :=
  let k : Int := r.num.log2 - r.den.log2
  if (r.scale 2 (-k)).oneLe then k else k - 1

/-- How often `num` takes a factor of ten until it reaches `den`, at most `limit` times. -/
def tensUntil : (limit num den : Nat) → Nat
  | 0, _, _ => 0
  | limit + 1, num, den => if den ≤ num then 0 else tensUntil limit (10 * num) den + 1

/-- The greatest `k` with `10 ^ k` not above the value, which is positive.  A value
below one has at most as many leading zeros as its denominator has bits. -/
def log10 (r : Ratio) : Int :=
  if r.oneLe then (Text.decimal r.floor).length - 1
  else - (tensUntil (r.den.log2 + 1) r.num r.den : Int)

end Ratio

end JsonEdit
