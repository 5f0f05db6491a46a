import Retime.InPlace
import Retime.Options.Basic
import Retime.Speed.Map

/-!
# Marker Pairs

A span of the source video that becomes a clip.

A pair has no times of its own. Its start, its end and its speed are read off
its speed map, so that the two can never disagree.

The markers of a pair can be moved, and a move can be taken back. Every pair
remembers its own moves in two stacks: those that can be taken back, and those
that were taken back and can be made again.

A new move is remembered after it was made. Going back and forth works the
other way round: the record of the move leaves its stack first, and is put
back if the map refuses. These two are edits in place for that reason.

## Main definitions

* `LoopRange`: The part of a pair that a preview repeats.
* `Pair`: A span of the source with all that belongs to it.
* `Pair.make`: A pair of one speed.
* `Pair.move`: Moving a marker.
* `Pair.takeBack`, `Pair.makeAgain`: Going back and forth through the moves.
* `Pair.replaceMap`: Another speed map for the same span.
-/

namespace Retime

/-- The part of a pair that a preview repeats. -/
structure LoopRange (α : Type) where
  start : Option α := none
  stop : Option α := none
  enabled : Bool := true
deriving Repr

namespace LoopRange

variable {α : Type} [Scalar α]

/-- The two ends of the range within a pair, if it is enabled and lies
    strictly inside. -/
def active? (r : LoopRange α) (pairStart pairStop : α) : Option (α × α) :=
  match r.enabled, r.start, r.stop with
  | true, some start, some stop =>
    if pairStart < start ∧ start < stop ∧ stop < pairStop then some (start, stop) else none
  | _, _, _ => none

end LoopRange

/-- One move of a marker. -/
structure MoveRecord (α : Type) where
  side : Side
  source : α
  target : α
  /-- The points that the move dropped, in their order. -/
  dropped : List (SpeedPoint α)
deriving Repr

/-- The moves of the markers of a pair, the latest first in both stacks. -/
structure MoveHistory (α : Type) where
  undo : List (MoveRecord α) := []
  redo : List (MoveRecord α) := []
deriving Repr

/-- A span of the source video with all that belongs to it. -/
structure Pair (α : Type) where
  map : SpeedMap α
  crop : Crop
  /-- The options that the pair decides itself. -/
  overrides : Options α
  loop : LoopRange α
  /-- How long the clip plays, in seconds, as last computed. -/
  playTime : α
  moves : MoveHistory α

namespace Pair

variable {α : Type} [Scalar α]

/-- The time of the start marker. -/
def start (p : Pair α) : α := p.map.start

/-- The time of the end marker. -/
def stop (p : Pair α) : α := p.map.stop

/-- The speed at the start, which is the speed of a pair that has only one. -/
def speed (p : Pair α) : α := p.map.first.speed

/-- The time of the source between the markers. -/
def span (p : Pair α) : α := p.stop - p.start

/-- How long the clip would play at the speed of its start. -/
def naiveTime (p : Pair α) : α := p.span / p.speed

/-- Whether a time lies between the markers. -/
def contains (p : Pair α) (time : α) : Bool :=
  decide (p.start ≤ time) && decide (time ≤ p.stop)

/-- A pair with the given map. Until somebody who knows the frame rate
    computes it, its play time is the naive one. -/
def ofMap (map : SpeedMap α) (crop : Crop) : Pair α where
  map
  crop
  overrides := .empty
  loop := {}
  playTime := (map.stop - map.start) / map.first.speed
  moves := {}

/-- A pair of one speed. -/
def make (start stop speed : α) (crop : Crop) : Except (MarkerError α) (Pair α) := do
  if !(Scalar.isFinite start && Scalar.isFinite stop) || decide (stop ≤ start) then
    throw (.endBeforeStart stop start)
  SpeedMap.checkSpeed speed
  let map ← SpeedMap.constant start stop speed
  return ofMap map crop

/-- Sets the speed of the pair as a whole. -/
def setSpeed (speed : α) (p : Pair α) : Except (MarkerError α) (Pair α) := do
  return { p with map := ← p.map.setSpeed speed }

/-- How far an end of a map may be off the markers and still be taken to lie
    on them. -/
def tolerance : α := 1e-6

/-- The points of a map brought onto the markers of a pair, if their ends are
    near enough. -/
def alignEnds (points : List (SpeedPoint α)) (start stop : α) :
    Except (MarkerError α) (List (SpeedPoint α)) :=
  match points.head?, points.getLast? with
  | some first, some last =>
    if tolerance < Scalar.abs (first.time - start) ∨
        tolerance < Scalar.abs (last.time - stop) then
      .error (.badMap (.otherSpan first.time last.time start stop))
    else
      .ok (SpeedMap.retimeLast stop (SpeedMap.retimeFirst start points))
  | _, _ => .error (.badMap .noPoints)

/-- Another speed map, which has to span the same time. -/
def replaceMap (map : SpeedMap α) (p : Pair α) : Except (MarkerError α) (Pair α) := do
  let points ← alignEnds map.points p.start p.stop
  return { p with map := ← SpeedMap.ofList points }

/-- Moves a marker and remembers the move. Moves that were taken back are
    forgotten. -/
def move (side : Side) (time : α) (p : Pair α) : Except (MarkerError α) (Pair α) := do
  let (map, dropped) ← p.map.moveBoundary side time
  let record := ⟨side, p.map.boundary side, time, dropped⟩
  return { p with map, moves := ⟨record :: p.moves.undo, []⟩ }

/-- The pair with a move that can be taken back. -/
def pushUndo (record : MoveRecord α) (p : Pair α) : Pair α :=
  { p with moves := { p.moves with undo := record :: p.moves.undo } }

/-- The pair with a move that can be made again. -/
def pushRedo (record : MoveRecord α) (p : Pair α) : Pair α :=
  { p with moves := { p.moves with redo := record :: p.moves.redo } }

/-- Takes the latest move back in place, and says which marker it moved. -/
def takeBack : InPlace (MarkerError α) (Pair α) (Option Side) := do
  let p ← get
  match p.moves.undo with
  | [] => return none
  | record :: undo =>
    set { p with moves := { p.moves with undo } }
    match p.map.restoreBoundary record.side record.source record.dropped with
    | .error cause =>
      -- Back to where it was taken from, so that nothing has happened.
      modify (pushUndo record)
      throw cause
    | .ok map =>
      modify fun p => pushRedo record { p with map }
      return some record.side

/-- Makes the move again in place that was taken back latest, and says which
    marker it moved. The points it drops may be others this time. -/
def makeAgain : InPlace (MarkerError α) (Pair α) (Option Side) := do
  let p ← get
  match p.moves.redo with
  | [] => return none
  | record :: redo =>
    set { p with moves := { p.moves with redo } }
    match p.map.moveBoundary record.side record.target with
    | .error cause =>
      modify (pushRedo record)
      throw cause
    | .ok (map, dropped) =>
      modify fun p => pushUndo { record with dropped } { p with map }
      return some record.side

/-- The pair with its latest move taken back, and the marker that was moved. -/
def undoMove (p : Pair α) : Except (MarkerError α) (Pair α × Option Side) :=
  takeBack.outcome p

/-- The pair with a move made again, and the marker that was moved. -/
def redoMove (p : Pair α) : Except (MarkerError α) (Pair α × Option Side) :=
  makeAgain.outcome p

end Pair

end Retime
