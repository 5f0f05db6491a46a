import Retime.Scalar

/-!
# Doubles as Scalars

The scalars the program runs on.

Sums, products, quotients and comparisons of doubles have a meaning in the
logic already. The floor has not, so it is defined here on the parts of a
double: a sign, a natural mantissa and a binary exponent. A double whose
exponent is not negative is whole, and of any other the signed mantissa is
shifted, which divides it by a power of two and rounds down. Nothing is lost,
because the quotient has no more digits than the mantissa had.

The sign of a zero survives the floor, as it shows in written numbers.

## Main definitions

* `Double.floor`: The floor of a double.
* `Double.toInt`: The whole part of a double, within bounds.
-/

namespace Retime

namespace Double

/-- The largest whole number that is not above a double. -/
def floor (x : Float) : Float :=
  match x.toModel.unpack with
  | .finite s m q _ =>
    if 0 ≤ q then x else Float.ofInt (s.apply m >>> (-q).toNat)
  | _ => x

/-- A double cut towards zero and kept within two bounds; zero if it is not a
    number. -/
def toInt (lo hi : Int) (x : Float) : Int :=
  match x.toModel.unpack with
  | .notANumber => 0
  | .infinity .negative => lo
  | .infinity .positive => hi
  | .zero _ => max lo (min hi 0)
  | .finite s m q _ =>
    let whole := if 0 ≤ q then m <<< q.toNat else m >>> (-q).toNat
    max lo (min hi (s.apply whole))

end Double

instance : Scalar Float where
  decLT := inferInstance
  decLE := inferInstance
  isFinite := Float.isFinite
  floor := Double.floor
  ln := Float.log
  toInt := Double.toInt

end Retime
