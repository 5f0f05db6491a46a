import Retime.Decimal.Shortest
import Retime.Text.Number

/-!
# How Doubles Are Written

Doubles appear in two kinds of text, messages for people and documents for
programs, and in both with the fewest digits that denote them. What the two
do differently is gathered in one record: how far a number is written out in
positions, whether a whole one keeps its point, and which way a tie falls.

Measurements in messages are also written with a fixed number of places. That
is a rounding of the exact binary value, so `0.125` at two places is a true
tie, and goes to the even side.

## Main definitions

* `Layout`: The decisions of a number format.
* `Layout.render`: A double in a format.
* `Decimal.roundDiv`: The nearest whole quotient, ties to even.
* `fixed`: A double with a fixed number of places.
-/

namespace Retime

namespace Decimal

/-- The decisions of a number format. -/
structure Layout where
  /-- Which of two equally near candidates is written. -/
  tie : Tie
  /-- The exponents of the leading digit that are written in positions; any
      other number is written with its exponent. -/
  plain : Int → Bool
  /-- Whether a whole number in positions ends in `.0`. -/
  pointZero : Bool

/-- A decimal written in positions. -/
def plainText (pointZero : Bool) (d : Decimal) : List Char :=
  let ds := Text.digits d.digits
  let whole := (ds.length : Int) + d.exponent
  if 0 ≤ d.exponent then
    ds ++ List.replicate d.exponent.toNat '0' ++ (if pointZero then ['.', '0'] else [])
  else if 0 < whole then
    ds.take whole.toNat ++ '.' :: ds.drop whole.toNat
  else
    '0' :: '.' :: (List.replicate (-whole).toNat '0' ++ ds)

/-- A decimal written with the exponent of its leading digit, which always
    carries a sign. -/
def scientificText (d : Decimal) : List Char :=
  let ds := Text.digits d.digits
  let e := (ds.length : Int) + d.exponent - 1
  let fraction := if ds.length = 1 then [] else '.' :: ds.drop 1
  let sign := if e < 0 then '-' else '+'
  ds.take 1 ++ fraction ++ 'e' :: sign :: Text.digits e.natAbs

/-- A decimal in a format. -/
def Layout.text (l : Layout) (d : Decimal) : List Char :=
  let leading := ((Text.digits d.digits).length : Int) + d.exponent - 1
  if l.plain leading then plainText l.pointZero d else scientificText d

open Float.Model.UnpackedFloat in
/-- The sign in front of a number. -/
def signText : Sign → String
  | .positive => ""
  | .negative => "-"

/-- A double in a format. -/
def Layout.render (l : Layout) (x : Float) : String :=
  match x.toModel.unpack with
  | .notANumber => "NaN"
  | .infinity s => signText s ++ "inf"
  | .zero s => signText s ++ String.ofList (l.text ⟨0, 0⟩)
  | .finite s m q _ => signText s ++ String.ofList (l.text (shortest l.tie m q))

/-- Numbers in messages are written out in positions, a whole one without a
    point. -/
def display : Layout where
  tie := .upward
  plain := fun _ => true
  pointZero := false

/-- Numbers in documents keep the point, and have an exponent where they are
    very small or very large. -/
def document : Layout where
  tie := .toEven
  plain := fun e => -5 ≤ e && e ≤ 15
  pointZero := true

/-- The whole number nearest to `num / den`, a tie going to the even one. -/
def roundDiv (num den : Nat) : Nat :=
  let q := num / den
  match compare (2 * (num % den)) den with
  | .lt => q
  | .gt => q + 1
  | .eq => if q % 2 = 0 then q else q + 1

/-- A natural number of units of `10 ^ -places`, written with its point. -/
def placesText (places n : Nat) : List Char :=
  let ds := Text.padLeft '0' (places + 1) (Text.digits n)
  ds.take (ds.length - places) ++
    (if places = 0 then [] else '.' :: ds.drop (ds.length - places))

/-- A double rounded to a fixed number of places. -/
def fixed (places : Nat) (x : Float) : String :=
  match x.toModel.unpack with
  | .notANumber => "NaN"
  | .infinity s => signText s ++ "inf"
  | .zero s => signText s ++ String.ofList (placesText places 0)
  | .finite s m q _ =>
    let n := roundDiv ((m <<< q.toNat) * Nat.pow 10 places) (1 <<< (-q).toNat)
    signText s ++ String.ofList (placesText places n)

end Decimal

/-- A double as messages show it. -/
def numberText (x : Float) : String :=
  Decimal.display.render x

/-- A double as documents show it. -/
def documentNumberText (x : Float) : String :=
  Decimal.document.render x

end Retime
