/-!
# Scalars

The numbers that times, speeds and durations are measured in.

Everything that computes with time is written once, over any type of scalars,
because two readings of it matter. The program runs on doubles, where a time
may be infinite or not a number and every operation rounds; the laws of the
timing engine are laws of exact arithmetic, and are stated at a field. A
`Scalar` therefore asks only for what the computations use: the four
operations, the comparisons that branch, decimal literals, the floor, the
logarithm, and the passage to whole numbers.

The rest is derived here from those, and the derivations are chosen so that
they are exact on doubles. Rounding, for one, compares the fractional part
with a half and never adds a half first, since that sum may itself round up.

## Main definitions

* `Scalar`: The operations a timing computation may use.
* `Scalar.round`: Nearest whole number, halves away from zero.
* `Scalar.pow`: Integer powers by repeated squaring.
* `Scalar.roundTo`: Nearest multiple of a power of ten.
* `Scalar.lesser`, `Scalar.greater`: Extremes that pass over a non-number.
-/

namespace Retime

/-- A type of numbers that times and speeds can be measured in. -/
class Scalar (α : Type) extends
    Add α, Sub α, Mul α, Div α, Neg α, LT α, LE α, BEq α, OfScientific α where
  /-- Strict comparison is decided, and is false at a non-number. -/
  decLT : ∀ a b : α, Decidable (a < b)
  /-- Comparison is decided, and is false at a non-number. -/
  decLE : ∀ a b : α, Decidable (a ≤ b)
  /-- Neither infinite nor a non-number. -/
  isFinite : α → Bool
  /-- The largest whole number that is not above the argument. -/
  floor : α → α
  /-- The natural logarithm. -/
  ln : α → α
  /-- The whole part, cut towards zero and kept within the two bounds. A
      non-number counts as zero. -/
  toInt : (lo hi : Int) → α → Int

namespace Scalar

variable {α : Type} [Scalar α]

instance : DecidableLT α := decLT

instance : DecidableLE α := decLE

/-- The scalar nearest to a natural number. -/
def ofNat (n : Nat) : α :=
  OfScientific.ofScientific n false 0

/-- The scalar nearest to a whole number. -/
def ofInt : Int → α
  | .ofNat n => ofNat n
  | .negSucc n => -ofNat (n + 1)

/-- A scalar without its sign. -/
def abs (x : α) : α :=
  if x < 0.0 then -x else x

/-- Positive and finite: what a speed or a frame rate has to be. -/
def isPositive (x : α) : Bool :=
  isFinite x && decide ((0.0 : α) < x)

/-- The smallest whole number that is not below the argument. -/
def ceil (x : α) : α :=
  -floor (-x)

/-- Nearest whole number of a scalar that is not negative, a half going up.
    The fractional part is exact, so no half is ever added to a scalar that
    cannot hold it. -/
def roundUp (x : α) : α :=
  if x - floor x < 0.5 then floor x else floor x + 1.0

/-- Nearest whole number, halves going away from zero. -/
def round (x : α) : α :=
  if x < 0.0 then -roundUp (-x) else roundUp x

/-- The larger of two scalars, or the one that is a number. -/
def greater (a b : α) : α :=
  if a < b then b else if a == a then a else b

/-- The smaller of two scalars, or the one that is a number. -/
def lesser (a b : α) : α :=
  if b < a then b else if a == a then a else b

/-- A scalar moved to the nearer bound where it lies outside the two. -/
def clamp (lo hi x : α) : α :=
  if x < lo then lo else if hi < x then hi else x

/-- `r * a ^ n` by repeated squaring: the powers `a`, `a²`, `a⁴`, … are
    multiplied in from the lowest binary digit of `n` on. -/
def powFrom (r a : α) (n : Nat) : α :=
  if h : n < 2 then
    if n = 1 then r * a else r
  else
    powFrom (if n % 2 = 1 then r * a else r) (a * a) (n / 2)
termination_by n
decreasing_by omega

/-- `a ^ n` for any whole `n`; a negative power is the reciprocal of the
    positive one. -/
def pow (a : α) (n : Int) : α :=
  let r := powFrom 1.0 a n.natAbs
  if n < 0 then 1.0 / r else r

/-- Nearest number of `places` decimals. -/
def roundTo (places : Int) (x : α) : α :=
  let scale := pow 10.0 places
  round (x * scale) / scale

/-- The sum of a list, added from the left. -/
def sum (xs : List α) : α :=
  xs.foldl (· + ·) 0.0

end Scalar

end Retime
