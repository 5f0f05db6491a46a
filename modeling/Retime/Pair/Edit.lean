import Retime.Pair.Basic

/-!
# Edits of a Pair

Every edit of the speed map of a pair as a value, and what it does.

Only two of them say anything about themselves, the two that go through the
moves of the markers: each reports the marker that it moved, or that there was
no move left.

## Main definitions

* `PairEdit`: An edit of the speed map of a pair.
* `Pair.edit`: What an edit does.
-/

namespace Retime

/-- An edit of the speed map of a pair. -/
inductive PairEdit (α : Type) where
  | move (side : Side) (time : α)
  | undo
  | redo
  | setSpeed (speed : α)
  | replaceMap (map : SpeedMap α)

namespace Pair

variable {α : Type} [Scalar α]

/-- What an edit does to a pair in place, and the marker that it moved back or
    forth. -/
def edit : PairEdit α → InPlace (MarkerError α) (Pair α) (Option Side)
  | .move side time => do
    InPlace.update (move side time)
    return none
  | .undo => takeBack
  | .redo => makeAgain
  | .setSpeed speed => do
    InPlace.update (setSpeed speed)
    return none
  | .replaceMap map => do
    InPlace.update (replaceMap map)
    return none

end Pair

end Retime
