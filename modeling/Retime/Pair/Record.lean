import Retime.Pair.Basic

/-!
# Stored Pairs

What a document keeps of a pair, and the way back.

A record says most things twice. It has the two markers and the speed, and
for a pair whose speed varies the whole map as well, which the markers then
have to agree with. A pair of one speed is stored without its map, even if
that has more than two points: it comes back with two.

The moves of the markers are not stored.

## Main definitions

* `PairRecord`: What is kept of a pair.
* `Pair.toRecord`, `Pair.ofRecord`: There and back.
-/

namespace Retime

/-- What a document keeps of a pair. -/
structure PairRecord (α : Type) where
  start : α
  stop : α
  crop : Crop
  speed : α
  overrides : Options α
  /-- The points of the map, if the speed varies. -/
  points : Option (List (SpeedPoint α))
  loop : LoopRange α
  playTime : Option α

namespace Pair

variable {α : Type} [Scalar α]

/-- What is kept of a pair. -/
def toRecord (p : Pair α) : PairRecord α where
  start := p.start
  stop := p.stop
  crop := p.crop
  speed := p.speed
  overrides := p.overrides
  points := if p.map.isVariable then some p.map.points else none
  loop := p.loop
  playTime := some p.playTime

/-- The map that a record describes. -/
def mapOfRecord (r : PairRecord α) : Except (MarkerError α) (SpeedMap α) :=
  match r.points with
  | some points => do
    SpeedMap.ofList (← alignEnds points r.start r.stop)
  | none => do
    SpeedMap.checkSpeed r.speed
    if r.stop ≤ r.start then
      throw (.endBeforeStart r.stop r.start)
    SpeedMap.constant r.start r.stop r.speed

/-- The play time of a record, if it can be one. -/
def storedTime? (r : PairRecord α) : Option α :=
  r.playTime.filter fun d => Scalar.isFinite d && decide ((0.0 : α) ≤ d)

/-- The pair that a record describes. -/
def ofRecord (r : PairRecord α) : Except (MarkerError α) (Pair α) := do
  let p := ofMap (← mapOfRecord r) r.crop
  return { p with
    overrides := r.overrides
    loop := r.loop
    playTime := (storedTime? r).getD p.playTime }

end Pair

end Retime
