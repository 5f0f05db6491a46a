import Retime.Error
import Retime.Scalar

/-!
# Speed Maps

How fast a clip plays at each time of its source.

A map is a row of points, each a time and the speed at that time. The first
and the last point lie on the two ends of the clip. They are set apart in the
type, for two reasons: there is no map without them, and every edit treats
them differently from the points between.

`flaw?` says what the type cannot: times are finite and do not go down, the
map spans some time, and speeds are positive and finite. Reading a map checks
this; the edits of a boundary keep it.

Moving a boundary takes the end point along and drops the points that come to
lie outside. The dropped points are handed back, so the move can be undone.

## Main definitions

* `SpeedPoint`, `SpeedMap`: A point, and a row of them.
* `SpeedMap.ofList`: The map of a list of points, or what is wrong with it.
* `SpeedMap.moveBoundary`: Moves one end of a map.
* `SpeedMap.restoreBoundary`: Takes such a move back.
* `SpeedMap.setSpeed`: Sets the speed of a map as a whole.
* `SpeedMap.reversed`: The speeds in reverse, for a clip that plays backwards.

## Theorems

* `points_ofEnds`: The points of a map are its ends and those between.
* `length_points`: A map has at least two points.
-/

namespace Retime

/-- A speed at a time. -/
structure SpeedPoint (α : Type) where
  /-- The time in the source, in seconds. -/
  time : α
  /-- How many seconds of the source play in one. -/
  speed : α
deriving Repr

/-- One of the two ends of a clip. -/
inductive Side where
  | start
  | stop
deriving DecidableEq, Repr

namespace Side

/-- The other end. -/
def opposite : Side → Side
  | .start => .stop
  | .stop => .start

/-- An end as text. -/
def text : Side → String
  | .start => "start"
  | .stop => "end"

end Side

/-- The points of a clip: its two ends and what is between them. -/
structure SpeedMap (α : Type) where
  /-- The point at the start of the clip. -/
  first : SpeedPoint α
  /-- The points between, in their order. -/
  inner : List (SpeedPoint α)
  /-- The point at the end of the clip. -/
  last : SpeedPoint α
deriving Repr

namespace SpeedMap

variable {α : Type}

/-- All points, in their order. -/
def points (m : SpeedMap α) : List (SpeedPoint α) :=
  m.first :: (m.inner ++ [m.last])

/-- The time of the first point. -/
def start (m : SpeedMap α) : α := m.first.time

/-- The time of the last point. -/
def stop (m : SpeedMap α) : α := m.last.time

/-- The time of one end. -/
def boundary (m : SpeedMap α) : Side → α
  | .start => m.start
  | .stop => m.stop

/-- Neighbouring points, from the start on. -/
def segments (m : SpeedMap α) : List (SpeedPoint α × SpeedPoint α) :=
  m.points.zip (m.inner ++ [m.last])

/-- A map has a point more than there are segments, and two at least. -/
theorem length_points (m : SpeedMap α) : m.points.length = m.inner.length + 2 := by
  simp [points]

theorem length_segments (m : SpeedMap α) : m.segments.length = m.inner.length + 1 := by
  simp [segments, points]

/-- The map with the given ends: a list of two points or more is taken apart. -/
def ofEnds? : List (SpeedPoint α) → Option (SpeedMap α)
  | first :: p :: rest => some ⟨first, (p :: rest).dropLast, (p :: rest).getLast (by simp)⟩
  | _ => none

/-- Taking a list apart loses nothing of it. -/
theorem points_ofEnds {ps : List (SpeedPoint α)} {m : SpeedMap α} (h : ofEnds? ps = some m) :
    m.points = ps := by
  match ps, h with
  | first :: p :: rest, h =>
    cases h
    simp only [points, List.dropLast_concat_getLast]

/-- A list of points with the time of its first changed. -/
def retimeFirst (time : α) : List (SpeedPoint α) → List (SpeedPoint α)
  | [] => []
  | p :: ps => { p with time } :: ps

/-- A list of points with the time of its last changed. -/
def retimeLast (time : α) : List (SpeedPoint α) → List (SpeedPoint α)
  | [] => []
  | [p] => [{ p with time }]
  | p :: q :: ps => p :: retimeLast time (q :: ps)

variable [Scalar α]

/-- Refuses a speed that is not positive and finite. -/
def checkSpeed (speed : α) : Except (MarkerError α) Unit :=
  if Scalar.isPositive speed then .ok () else .error (.badSpeed speed)

/-- What is wrong with a point by itself. -/
def pointFlaw? (p : SpeedPoint α) (index : Nat) : Option (MapFlaw α) :=
  if !Scalar.isFinite p.time then some (.wildTime index)
  else if !Scalar.isPositive p.speed then some (.badSpeed index p.speed)
  else none

/-- What is wrong with a point behind another. -/
def orderFlaw? (segment : SpeedPoint α × SpeedPoint α) (index : Nat) : Option (MapFlaw α) :=
  if segment.2.time < segment.1.time then
    some (.outOfOrder index segment.1.time segment.2.time)
  else
    none

/-- What is wrong with a map: the first bad point, else the first point that
    is earlier than the one in front of it, else the lack of a span. -/
def flaw? (m : SpeedMap α) : Option (MapFlaw α) :=
  (m.points.zipIdx.findSome? fun (p, i) => pointFlaw? p i).or <|
    (m.segments.zipIdx.findSome? fun (s, i) => orderFlaw? s i).or <|
      if m.stop ≤ m.start then some .noSpan else none

/-- Refuses a map with a flaw. -/
def validate (m : SpeedMap α) : Except (MarkerError α) Unit :=
  match m.flaw? with
  | some flaw => .error (.badMap flaw)
  | none => .ok ()

/-- The map of a list of points. -/
def ofList (ps : List (SpeedPoint α)) : Except (MarkerError α) (SpeedMap α) :=
  match ofEnds? ps with
  | none => .error (.badMap (.tooFewPoints ps.length))
  | some m => do
    m.validate
    return m

/-- The map of two points with one speed. -/
def constant (start stop speed : α) : Except (MarkerError α) (SpeedMap α) :=
  ofList [⟨start, speed⟩, ⟨stop, speed⟩]

/-- Whether the speed changes anywhere. -/
def isVariable (m : SpeedMap α) : Bool :=
  m.segments.any fun (left, right) => left.speed != right.speed

/-- Whether there are only the two ends, with one speed. -/
def isPlain (m : SpeedMap α) : Bool :=
  m.inner.isEmpty && m.first.speed == m.last.speed

/-- Sets the speed of the first point, and of the last point too if the map is
    plain. Any other map keeps its shape. -/
def setSpeed (speed : α) (m : SpeedMap α) : Except (MarkerError α) (SpeedMap α) := do
  checkSpeed speed
  let first := { m.first with speed }
  if m.isPlain then
    return { m with first, last := { m.last with speed } }
  else
    return { m with first }

/-- The refusal of a boundary that would pass the other one. -/
def orderingError (m : SpeedMap α) (side : Side) (time : α) : MarkerError α :=
  match side with
  | .start => .startAfterEnd time m.stop
  | .stop => .endBeforeStart time m.start

/-- Whether one end of a map may be moved to a time: to any that does not reach
    the other end. -/
def admits (side : Side) (time : α) (m : SpeedMap α) : Bool :=
  Scalar.isFinite time &&
    match side with
    | .start => !decide (m.stop ≤ time)
    | .stop => !decide (time ≤ m.start)

/-- The map with one end at another time, and the points between that are then
    outside, in their order. -/
def cut (side : Side) (time : α) (m : SpeedMap α) : SpeedMap α × List (SpeedPoint α) :=
  match side with
  | .start =>
    let (kept, dropped) := m.inner.partition fun p => time ≤ p.time
    (⟨{ m.first with time }, kept, m.last⟩, dropped)
  | .stop =>
    let (kept, dropped) := m.inner.partition fun p => p.time ≤ time
    (⟨m.first, kept, { m.last with time }⟩, dropped)

/-- The map with one end at another time, and more points next to that end. -/
def extended (side : Side) (time : α) (dropped : List (SpeedPoint α)) (m : SpeedMap α) :
    SpeedMap α :=
  match side with
  | .start => ⟨{ m.first with time }, dropped ++ m.inner, m.last⟩
  | .stop => ⟨m.first, m.inner ++ dropped, { m.last with time }⟩

/-- Moves one end of a map to another time, and drops the points that the
    move leaves outside. They are returned in their order. -/
def moveBoundary (side : Side) (time : α) (m : SpeedMap α) :
    Except (MarkerError α) (SpeedMap α × List (SpeedPoint α)) :=
  if m.admits side time then .ok (m.cut side time) else .error (m.orderingError side time)

/-- Puts one end of a map back to where it was, together with the points that
    were dropped. -/
def restoreBoundary (side : Side) (time : α) (dropped : List (SpeedPoint α)) (m : SpeedMap α) :
    Except (MarkerError α) (SpeedMap α) := do
  let restored := m.extended side time dropped
  restored.validate
  return restored

/-- The same times with the speeds in reverse. -/
def reversed (m : SpeedMap α) : SpeedMap α :=
  { first := ⟨m.first.time, m.last.speed⟩
    inner := m.inner.zipWith (fun p q => ⟨p.time, q.speed⟩) m.inner.reverse
    last := ⟨m.last.time, m.first.speed⟩ }

end SpeedMap

end Retime
