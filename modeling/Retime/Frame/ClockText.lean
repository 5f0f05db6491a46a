import Retime.Scalar
import Retime.Text.Number

/-!
# Durations as a Clock Shows Them

A duration as hours, minutes and seconds with a colon between them, and with
no more of it than it needs: groups that are zero in front are left away, and
so are zeros at the end of the fraction. `5` is five seconds, `1:05.25` a
minute more and a quarter.

The text stands for a whole number of milliseconds. Everything is divided out
of that number, so a second never shows as sixty.

## Main definitions

* `ClockText.millis`: A duration in whole milliseconds.
* `clockText`: A duration as a clock shows it.
-/

namespace Retime

namespace ClockText

/-- A duration without its sign, in whole milliseconds. -/
def millis {α : Type} [Scalar α] (seconds : α) : Nat :=
  (Scalar.toInt 0 (UInt64.size - 1) (Scalar.round (Scalar.abs seconds * 1000.0))).toNat

/-- Two digits of a group that has another in front of it. -/
def group (n : Nat) : List Char :=
  Text.padLeft '0' 2 (Text.digits n)

/-- Hours, minutes and seconds, from the first group that is not zero. -/
def wholeText (total : Nat) : List Char :=
  let hours := total / 3600000
  let minutes := total / 60000 % 60
  let seconds := total / 1000 % 60
  if 0 < hours then
    Text.digits hours ++ ':' :: group minutes ++ ':' :: group seconds
  else if 0 < minutes then
    Text.digits minutes ++ ':' :: group seconds
  else
    Text.digits seconds

/-- The point and the fraction of a second, without zeros at its end. -/
def fractionText (total : Nat) : List Char :=
  let fraction := total % 1000
  if 0 < fraction then
    let ds := Text.padLeft '0' 3 (Text.digits fraction)
    '.' :: (ds.reverse.dropWhile (· == '0')).reverse
  else
    []

end ClockText

/-- A duration as a clock shows it, with a minus sign where it is negative and
    shows as anything but zero. -/
def clockText {α : Type} [Scalar α] (seconds : α) : String :=
  let total := ClockText.millis seconds
  let sign := if seconds < 0.0 ∧ 0 < total then ['-'] else []
  String.ofList (sign ++ ClockText.wholeText total ++ ClockText.fractionText total)

end Retime
