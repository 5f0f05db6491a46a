import Retime.Speed.Map
import Retime.Text.Blank

/-!
# The Speed at an Instant

What a player is told while it shows a clip: the speed at the present time.

Between two points the speed moves from the one to the other, evenly or along
a curve that starts and ends gently. The mean of the two is weighted, rather
than a step added to the first, so that both ends of a segment are hit
exactly.

Where two points share a time the progress between them is no number. The
first segment that holds the time decides, and its right point stands in for
any speed that is not usable.

## Main definitions

* `Easing`: How the speed moves between two points.
* `roundSpeed`: A speed on a grid of multiples, with few decimals.
* `SpeedMap.sample`: The speed of a map at a time.
-/

namespace Retime

/-- How the speed moves between two points. -/
inductive Easing where
  /-- Evenly. -/
  | linear
  /-- Slowly at both ends and fast in the middle. -/
  | cubicInOut
deriving DecidableEq, Repr

namespace Easing

/-- The other way of moving. -/
def toggled : Easing → Easing
  | .linear => .cubicInOut
  | .cubicInOut => .linear

/-- The name of a way of moving. -/
def name : Easing → String
  | .linear => "linear"
  | .cubicInOut => "cubicInOut"

/-- Reads a name, some of which stand for the same curve. Blanks around it are
    passed over. -/
def parse {α : Type} (s : String) : Except (TimingError α) Easing :=
  let word := String.ofList (Text.trim s.toList)
  if word = "linear" then .ok .linear
  else if word = "cubicInOut" ∨ word = "cubic-in-out" ∨ word = "cubic" then .ok .cubicInOut
  else .error (.unknownEasing word)

/-- Progress through a segment after easing. Both curves keep zero and one. -/
def apply {α : Type} [Scalar α] (e : Easing) (t : α) : α :=
  match e with
  | .linear => t
  | .cubicInOut =>
    if t < 0.5 then
      4.0 * t * t * t
    else
      let u := 2.0 * t - 2.0
      u * u * u / 2.0 + 1.0

end Easing

variable {α : Type} [Scalar α]

/-- A speed brought to the nearest multiple and then to the nearest number
    with few decimals. The number of decimals is a signed word, so one that is
    too large turns negative. -/
def roundSpeed (speed multiple : α) (precision : UInt32) : α :=
  let snapped := Scalar.round (speed / multiple) * multiple
  Scalar.roundTo (Int.bmod precision.toNat UInt32.size) snapped

/-- How the speed of a map is looked up. -/
structure Sampling (α : Type) where
  easing : Easing
  /-- Speeds are rounded to multiples of this, if it is positive. -/
  multiple : α
  /-- The decimals that are kept of a rounded speed. -/
  precision : UInt32
deriving Repr

/-- The speed on the way from one point to another, before it is rounded. -/
def speedBetween (e : Easing) (left right : SpeedPoint α) (time : α) : α :=
  let eased := e.apply ((time - left.time) / (right.time - left.time))
  let speed := left.speed * (1.0 - eased) + right.speed * eased
  if !Scalar.isFinite speed || speed == 0.0 then right.speed else speed

/-- The speed of a map at a time. A map of one speed that has two points has
    it everywhere; any other map plays at its normal speed outside. -/
def SpeedMap.sample (how : Sampling α) (m : SpeedMap α) (time : α) : α :=
  if m.isPlain then
    m.first.speed
  else
    match m.segments.find? fun (left, right) => left.time ≤ time && time ≤ right.time with
    | none => 1.0
    | some (left, right) =>
      if left.speed == right.speed then
        left.speed
      else
        let speed := speedBetween how.easing left right time
        if 0.0 < how.multiple then roundSpeed speed how.multiple how.precision else speed

end Retime
