/-!
# Whole Numbers in Text

Whole numbers as they are written and read in decimal.

Reading is bounded: a number stands for a width in pixels, a position in a
list or a bitrate, each of which has a largest value, and a text that denotes
more than that is refused just as one that is no number at all.

## Main definitions

* `digits`: The decimal digits of a natural number.
* `value`: The number that a row of digits denotes.
* `readDigits?`: Reads a row of digits with a bound.
* `readNat?`: The same, with an optional plus sign in front.
* `padLeft`: A text brought to a width.
-/

namespace Retime

namespace Text

/-- The decimal digits of a natural number, without leading zeros. -/
def digits (n : Nat) : List Char :=
  Nat.toDigits 10 n

/-- The number that a row of digits denotes. -/
def value (ds : List Char) : Nat :=
  ds.foldl (fun n d => 10 * n + (d.toNat - '0'.toNat)) 0

/-- Reads a row of one or more digits that denotes at most `limit`. -/
def readDigits? (limit : Nat) (cs : List Char) : Option Nat :=
  if cs ≠ [] ∧ cs.all Char.isDigit ∧ value cs ≤ limit then some (value cs) else none

/-- Reads a row of digits that may have a plus sign in front. -/
def readNat? (limit : Nat) : List Char → Option Nat
  | '+' :: cs => readDigits? limit cs
  | cs => readDigits? limit cs

/-- A text with fill characters in front until it is `width` long. -/
def padLeft (fill : Char) (width : Nat) (cs : List Char) : List Char :=
  List.replicate (width - cs.length) fill ++ cs

/-- A natural number in decimal. -/
def natText (n : Nat) : String :=
  String.ofList (digits n)

/-- A whole number in decimal, with a minus sign where it is negative. -/
def intText : Int → String
  | .ofNat n => natText n
  | .negSucc n => "-" ++ natText (n + 1)

end Text

end Retime
