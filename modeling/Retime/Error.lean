import Retime.Decimal.Layout

/-!
# What Can Go Wrong

Everything that an edit, a computation or a reading may be refused for.

A cause carries the values that led to it and no words; the words are one
function for each kind of cause. The kinds are layered as the library is:
marker data may be bad in itself, a computation of time may be asked for
something it cannot do, and an edit may name a pair that does not exist.

## Main definitions

* `MapFlaw`, `CropFlaw`: What is wrong with a speed map, with a crop.
* `MarkerError`, `TimingError`, `EditError`: The three layers.
* `MarkerError.isOrdering`: Whether a marker was moved past the other.
* `EditError.report`: The wording with the layer in front.
-/

namespace Retime

/-- What is wrong with the points of a speed map. -/
inductive MapFlaw (α : Type) where
  /-- There are fewer than two points. -/
  | tooFewPoints (count : Nat)
  /-- A point has a time that is not finite. -/
  | wildTime (index : Nat)
  /-- A point has a speed that is not positive and finite. -/
  | badSpeed (index : Nat) (speed : α)
  /-- The point behind the one at `index` is earlier. -/
  | outOfOrder (index : Nat) (time next : α)
  /-- The last point is not later than the first. -/
  | noSpan
  /-- A map for a pair has no points at all. -/
  | noPoints
  /-- The map and the pair it is meant for span different times. -/
  | otherSpan (mapStart mapStop start stop : α)
deriving Repr

/-- What is wrong with the text of a crop. -/
inductive CropFlaw where
  /-- It does not have four components. -/
  | notFour
  /-- A component is not a whole number. -/
  | notWhole (component : String)
deriving DecidableEq, Repr

/-- Why marker data is refused. -/
inductive MarkerError (α : Type) where
  /-- A start would not be before the end. -/
  | startAfterEnd (time stop : α)
  /-- An end would not be after the start. -/
  | endBeforeStart (time start : α)
  | badMap (flaw : MapFlaw α)
  | badSpeed (speed : α)
  | badCrop (text : String) (flaw : CropFlaw)
  | badResolution (text : String)
  /-- A document lists no pairs. -/
  | noPairs
deriving Repr

/-- Why a computation of time is refused. -/
inductive TimingError (α : Type) where
  | badRate (rate : α)
  | unknownEasing (name : String)
  | marker (cause : MarkerError α)
deriving Repr

/-- Why an edit is refused. -/
inductive EditError (α : Type) where
  /-- No pair has this number, counted from one. -/
  | noSuchPair (number count : Nat)
  | marker (cause : MarkerError α)
  | timing (cause : TimingError α)
deriving Repr

/-- The wording of a flaw of a speed map. -/
def MapFlaw.message : MapFlaw Float → String
  | .tooFewPoints n => "expected at least 2 points, got " ++ Text.natText n
  | .wildTime i => "point " ++ Text.natText i ++ " has non-finite time"
  | .badSpeed i y => "point " ++ Text.natText i ++ " has non-positive speed " ++ numberText y
  | .outOfOrder i x next =>
    "point " ++ Text.natText (i + 1) ++ " at " ++ numberText next ++ " precedes point " ++
      Text.natText i ++ " at " ++ numberText x
  | .noSpan => "map must span a positive time range"
  | .noPoints => "map has no points"
  | .otherSpan mapStart mapStop start stop =>
    "map spans [" ++ numberText mapStart ++ ", " ++ numberText mapStop ++
      "] but the pair spans [" ++ numberText start ++ ", " ++ numberText stop ++ "]"

/-- The wording of a flaw of a crop. -/
def CropFlaw.message : CropFlaw → String
  | .notFour => "expected four ':'-separated components"
  | .notWhole component => component ++ " must be a whole number of pixels"

namespace MarkerError

/-- Whether a marker would have been moved past the other one. -/
def isOrdering {α : Type} : MarkerError α → Bool
  | .startAfterEnd _ _ | .endBeforeStart _ _ => true
  | _ => false

/-- The wording of a refusal of marker data. -/
def message : MarkerError Float → String
  | .startAfterEnd time stop =>
    "Start marker cannot be placed after end marker (start " ++ Decimal.fixed 3 time ++
      "s, end " ++ Decimal.fixed 3 stop ++ "s)"
  | .endBeforeStart time start =>
    "End marker cannot be placed before start marker (end " ++ Decimal.fixed 3 time ++
      "s, start " ++ Decimal.fixed 3 start ++ "s)"
  | .badMap flaw => "Invalid speed map: " ++ flaw.message
  | .badSpeed speed =>
    "Invalid speed " ++ numberText speed ++ ": speeds must be positive and finite"
  | .badCrop text flaw => "Invalid crop '" ++ text ++ "': " ++ flaw.message
  | .badResolution text => "Invalid crop resolution '" ++ text ++ "'"
  | .noPairs => "Could not find markers or markerPairs field"

end MarkerError

/-- The wording of a refused computation of time. -/
def TimingError.message : TimingError Float → String
  | .badRate rate =>
    "Invalid frame rate " ++ numberText rate ++ ": fps must be positive and finite"
  | .unknownEasing name =>
    "Invalid easing mode '" ++ name ++ "' (expected 'linear' or 'cubicInOut')"
  | .marker cause => cause.message

namespace EditError

/-- Refuses an edit for the reason that a computation of time is refused. -/
def liftTiming {α β : Type} (r : Except (TimingError α) β) : Except (EditError α) β :=
  match r with
  | .ok b => .ok b
  | .error cause => .error (.timing cause)

/-- Whether a marker would have been moved past the other one. -/
def isOrdering {α : Type} : EditError α → Bool
  | .marker cause => cause.isOrdering
  | _ => false

/-- The wording of a refused edit. -/
def message : EditError Float → String
  | .noSuchPair number count =>
    "Marker pair " ++ Text.natText number ++ " does not exist (" ++ Text.natText count ++
      " pairs)"
  | .marker cause => cause.message
  | .timing cause => cause.message

/-- The wording with the layer in front that the cause comes from. -/
def report : EditError Float → String
  | .noSuchPair number count =>
    "Editor error: " ++ (EditError.noSuchPair number count : EditError Float).message
  | .marker cause => "Marker model error: " ++ cause.message
  | .timing cause => "Timing error: " ++ cause.message

end EditError

end Retime
