import Retime.Scalar
import Retime.Text.Number

/-!
# Numerals

Decimal numbers as a person may write them: with or without a sign, a point
with digits on one side of it or on both, an exponent, and the words for what
is not a finite number.

A numeral is first read into its parts, which involves no rounding, and then
taken to the nearest scalar. So reading is the same whatever scalars are in
use.

## Main definitions

* `Numeral`: The parts of a decimal number.
* `Numeral.read`: Reads a whole text as a numeral.
* `Numeral.toScalar`: The scalar nearest to a numeral.
-/

namespace Retime

/-- A decimal number in its parts. -/
inductive Numeral where
  /-- The number `± digits * 10 ^ exponent`. -/
  | number (negative : Bool) (digits : Nat) (exponent : Int)
  /-- An infinity. -/
  | infinite (negative : Bool)
  /-- Not a number. -/
  | undefined
deriving DecidableEq, Repr

/-- Why a text is not a numeral. -/
inductive NumeralError where
  /-- There is no text at all. -/
  | empty
  /-- The text has another form. -/
  | malformed
deriving DecidableEq, Repr

/-- The wording of a refused numeral. -/
def NumeralError.message : NumeralError → String
  | .empty => "cannot parse float from empty string"
  | .malformed => "invalid float literal"

namespace Numeral

/-- The digits at the start of a text, and what follows them. -/
def spanDigits (cs : List Char) : List Char × List Char :=
  (cs.takeWhile Char.isDigit, cs.dropWhile Char.isDigit)

/-- Reads the exponent that ends a numeral, if there is one. -/
def readExponent? : List Char → Option Int
  | [] => some 0
  | c :: cs =>
    if c = 'e' ∨ c = 'E' then
      match cs with
      | '-' :: ds => (Text.readDigits? (Text.value ds) ds).map fun n => -(n : Int)
      | '+' :: ds => (Text.readDigits? (Text.value ds) ds).map fun n => (n : Int)
      | ds => (Text.readDigits? (Text.value ds) ds).map fun n => (n : Int)
    else
      none

/-- Reads digits with an optional point among them and an optional exponent
    behind. At least one digit has to be there. -/
def readNumber? (negative : Bool) (cs : List Char) : Option Numeral :=
  let (whole, rest) := spanDigits cs
  let (fraction, rest) :=
    match rest with
    | '.' :: rest => spanDigits rest
    | rest => ([], rest)
  if whole.isEmpty && fraction.isEmpty then
    none
  else
    (readExponent? rest).map fun e =>
      .number negative (Text.value (whole ++ fraction)) (e - fraction.length)

/-- Reads the word for an infinity or for no number, in any case. -/
def readWord? (negative : Bool) (cs : List Char) : Option Numeral :=
  let word := String.ofList (cs.map Char.toLower)
  if word = "inf" ∨ word = "infinity" then some (.infinite negative)
  else if word = "nan" then some .undefined
  else none

/-- Reads a text as a numeral. -/
def read (cs : List Char) : Except NumeralError Numeral :=
  if cs.isEmpty then
    .error .empty
  else
    let (negative, body) :=
      match cs with
      | '-' :: body => (true, body)
      | '+' :: body => (false, body)
      | body => (false, body)
    match (readNumber? negative body).or (readWord? negative body) with
    | some n => .ok n
    | none => .error .malformed

/-- The scalar nearest to a numeral. -/
def toScalar {α : Type} [Scalar α] : Numeral → α
  | .number negative digits exponent =>
    let size := OfScientific.ofScientific digits (decide (exponent < 0)) exponent.natAbs
    if negative then -size else size
  | .infinite negative => if negative then -(1.0 / 0.0) else 1.0 / 0.0
  | .undefined => 0.0 / 0.0

end Numeral

end Retime
