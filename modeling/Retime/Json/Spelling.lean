import Retime.Json.Value
import Retime.Text.Number

/-!
# Spelled Numbers

The numbers of a JSON text as they are spelled, and what they denote.

A whole number of up to 64 bits is taken as it is. Any other number is a
scalar, and is put together in two steps: the leading digits are taken as far
as 64 bits hold them, and the scalar nearest to those is then multiplied or
divided by a power of ten. Both steps round. So the scalar may be a neighbour
of the one nearest to the spelled number, if the digits are many or the
exponent is large, and a document that is read, written and read again can
move by that much.

What is too large for a scalar has no value. What is too small is zero.

## Main definitions

* `Spelling`: A number as it is spelled.
* `Spelling.leading`: The digits that count, and the power of ten behind them.
* `Spelling.scaled?`: A scalar times a power of ten.
* `Spelling.number?`: The number that a spelling denotes.

## Theorems

* `keep_fst_lt`: The digits that count fit into 64 bits.
-/

namespace Retime

/-- A number as it is spelled. -/
structure Spelling where
  negative : Bool
  /-- The digits in front of the point. -/
  whole : List Char
  /-- The digits behind the point, if there is one. -/
  places : Option (List Char)
  exponent : Option Int

namespace Spelling

/-- Whether a number has neither a point nor an exponent. -/
def isWhole (s : Spelling) : Bool :=
  s.places.isNone && s.exponent.isNone

/-- The number that starts with the digits of `n` and goes on with a row of
    digits as far as 64 bits hold it, and how many digits are left out. -/
def keep (n : Nat) : List Char → Nat × Nat
  | [] => (n, 0)
  | d :: ds =>
    let m := 10 * n + (d.toNat - '0'.toNat)
    if m < UInt64.size then keep m ds else (n, ds.length + 1)

/-- The digits that count, as a number, and the exponent of the power of ten
    that it is to be multiplied by. Digits that are left out in front of the
    point raise the exponent, and digits that count behind it lower it. -/
def leading (s : Spelling) : Nat × Int :=
  let places := s.places.getD []
  let (n, raised) := keep 0 s.whole
  let (n, dropped) := keep n places
  (n, (raised : Int) - (places.length - dropped : Nat) + s.exponent.getD 0)

section Scaling

variable {α : Type} [Scalar α]

/-- The largest exponent of a power of ten that is multiplied by at once. -/
def maxExponent : Nat := 308

/-- The scalar nearest to a power of ten. -/
def powerOfTen (n : Nat) : α :=
  OfScientific.ofScientific 1 false n

/-- A scalar divided by a power of ten, in steps if the power is too large.
    Nothing is left to divide once it is zero. -/
def shrink (x : α) (n : Nat) : α :=
  if n ≤ maxExponent then x / powerOfTen n
  else if x == 0.0 then x
  else shrink (x / powerOfTen maxExponent) (n - maxExponent)
termination_by n
decreasing_by simp only [maxExponent] at *; omega

/-- A scalar times a power of ten, unless that is too large. -/
def scaled? (x : α) (exponent : Int) : Option α :=
  if x == 0.0 then
    some x
  else if exponent < 0 then
    some (shrink x exponent.natAbs)
  else if exponent ≤ maxExponent then
    let y := x * powerOfTen exponent.toNat
    if Scalar.isFinite y then some y else none
  else
    none

/-- The scalar that a spelling denotes. -/
def scalar? (s : Spelling) : Option α :=
  let (n, exponent) := s.leading
  (scaled? (Scalar.ofNat n) exponent).map fun x => if s.negative then -x else x

/-- The number that a spelling denotes. A whole number of more than 64 bits
    is a scalar, and so is a negative zero, as only a scalar has one. -/
def number? (s : Spelling) : Option (Number α) :=
  let size := Text.value s.whole
  let n : Int := if s.negative then -(size : Int) else size
  if s.isWhole ∧ ¬(s.negative ∧ size = 0) ∧ -0x8000000000000000 ≤ n ∧ n < UInt64.size then
    some (.whole n)
  else
    s.scalar?.map .real

end Scaling

/-- The digits that count fit into 64 bits, if those before them do. -/
theorem keep_fst_lt {n : Nat} (hn : n < UInt64.size) (ds : List Char) :
    (keep n ds).1 < UInt64.size := by
  induction ds generalizing n with
  | nil => exact hn
  | cons d ds ih =>
    simp only [keep]
    split
    · next h => exact ih h
    · exact hn

end Spelling

end Retime
