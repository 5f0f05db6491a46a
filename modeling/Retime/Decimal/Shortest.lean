/-!
# Shortest Decimals

The fewest decimal digits that denote a double.

A double `m * 2 ^ q` stands for every real that rounds to it: an interval
around it, which reaches half way to the neighbours on either side. Any
decimal in that interval names the double, and the one to write is the one
with the fewest digits, and of those the nearest.

The search goes through the decimal grids `10 ^ e` from the coarsest that can
hold a hit to finer ones. On a grid only the two neighbours of the double can
be nearest to it, so only those are tried. All of it is arithmetic of natural
numbers: the interval is first multiplied by a common unit.

Two neighbours may lie in the interval at exactly the same distance. Which of
them is written is a matter of the format, so it is a parameter.

## Main definitions

* `Decimal`: A decimal number as digits and a power of ten.
* `Tie`: Which of two equally near decimals is taken.
* `Window`: A double with the reals that round to it, on a common unit.
* `shortest`: The fewest digits that denote a double.
-/

namespace Retime

/-- The number `digits * 10 ^ exponent`. -/
structure Decimal where
  /-- All digits of the number, as one natural number. -/
  digits : Nat
  /-- The power of ten of the last digit. -/
  exponent : Int
deriving DecidableEq, Repr

namespace Decimal

/-- Which of two equally near decimals is taken. -/
inductive Tie where
  /-- The one whose last digit is even. -/
  | toEven
  /-- The larger one. -/
  | upward
deriving DecidableEq, Repr

/-- A double together with the reals that round to it. All three bounds are
    counted in a unit of `1 / unit`. -/
structure Window where
  /-- The lower end of the interval. -/
  low : Nat
  /-- The double itself. -/
  center : Nat
  /-- The upper end of the interval. -/
  high : Nat
  /-- How many units make one. -/
  unit : Nat
  /-- Whether the two ends round to the double themselves. -/
  closed : Bool

namespace Window

/-- The window of `m * 2 ^ q`. Below the lowest mantissa of a binade the
    neighbour is only half as far away, and the ends belong to the window
    when the mantissa is even. -/
def ofBinary (m : Nat) (q : Int) : Window :=
  let below := if m = 0x10000000000000 ∧ -1074 < q then 1 else 2
  let up := 1 <<< (q - 2).toNat
  { low := (4 * m - below) * up
    center := 4 * m * up
    high := (4 * m + 2) * up
    unit := 1 <<< (2 - q).toNat
    closed := m % 2 == 0 }

/-- The window seen from the grid of step `10 ^ e`, where the step is one. -/
def onGrid (w : Window) (e : Int) : Window :=
  let finer := Nat.pow 10 (-e).toNat
  { w with
    low := w.low * finer
    center := w.center * finer
    high := w.high * finer
    unit := w.unit * Nat.pow 10 e.toNat }

/-- Whether a grid point lies in the window. -/
def admits (w : Window) (n : Nat) : Bool :=
  if w.closed then
    w.low ≤ n * w.unit && n * w.unit ≤ w.high
  else
    w.low < n * w.unit && n * w.unit < w.high

/-- The grid point nearest to the double among those in the window, if any. -/
def nearest? (w : Window) (tie : Tie) : Option Nat :=
  let down := w.center / w.unit
  match w.admits down, w.admits (down + 1) with
  | false, false => none
  | true, false => some down
  | false, true => some (down + 1)
  -- Both are admitted, so the nearer one counts.
  | true, true =>
    match compare (2 * w.center) ((2 * down + 1) * w.unit), tie with
    | .lt, _ => some down
    | .gt, _ => some (down + 1)
    | .eq, .upward => some (down + 1)
    | .eq, .toEven => some (if down % 2 = 0 then down else down + 1)

/-- The power of ten of the leading digit of the double. -/
def leading (w : Window) : Int :=
  if w.unit ≤ w.center then
    ((Nat.toDigits 10 (w.center / w.unit)).length : Int) - 1
  else
    -((Nat.toDigits 10 ((w.unit - 1) / w.center)).length : Int)

end Window

/-- A decimal without zeros at the end of its digits, looking at no more than
    `fuel` of them. -/
def strip : (fuel : Nat) → Decimal → Decimal
  | 0, d => d
  | fuel + 1, d =>
    if d.digits % 10 = 0 ∧ d.digits ≠ 0 then
      strip fuel ⟨d.digits / 10, d.exponent + 1⟩
    else
      d

/-- The decimal with the fewest digits that denotes `m * 2 ^ q`, and of those
    the nearest. Seventeen digits always suffice. -/
def shortest (tie : Tie) (m : Nat) (q : Int) : Decimal :=
  let w := Window.ofBinary m q
  let top := w.leading
  let hit := (List.range 17).findSome? fun (i : Nat) =>
    let e := top - i
    ((w.onGrid e).nearest? tie).map fun n => (⟨n, e⟩ : Decimal)
  strip 17 (hit.getD ⟨0, 0⟩)

end Decimal

end Retime
