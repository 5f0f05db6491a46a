import Retime.Frame.Grid
import Retime.Speed.Map

/-!
# How Long a Clip Plays

The length of a clip after its speed map has been applied.

The speed is linear in the time of the source within a segment, so the time a
segment takes to play is the integral of its inverse. For a slope `m` that is
`(1 / m) * ln |m * t + b|` between the two bounds, and where the speed does not
change it is the length over the speed.

Clips are cut between frames, and the integral follows the cuts. The first
frame is the first at or after the start, so every section is moved back by
the wait for it. The last frame is the last that begins before the end, so the
last section stops there; that frame is then held for one step of the grid.
Times within a tiny distance of the grid count as lying on it, as decimal
times seldom lie on it exactly.

## Main definitions

* `Section`: A segment with the bounds it is integrated over.
* `Breakdown`: The sections of a map at a frame rate.
* `FrameGrid.breakdown`: How a clip is cut up.
* `FrameGrid.playTime`: How long a clip plays.
-/

namespace Retime

/-- A segment of a map with the bounds it is integrated over. They are
    measured from the first frame of the clip. -/
structure Section (α : Type) where
  left : SpeedPoint α
  right : SpeedPoint α
  lower : α
  upper : α
deriving Repr

namespace Section

variable {α : Type} [Scalar α]

/-- The time of the source that the section takes up. -/
def length (s : Section α) : α :=
  s.upper - s.lower

/-- Whether the section takes up no time, and so is passed over. -/
def isEmpty (s : Section α) : Bool :=
  s.length == 0.0

/-- How much the speed grows in a second. -/
def slope (s : Section α) : α :=
  (s.right.speed - s.left.speed) / s.length

/-- The time that the section takes to play. -/
def playTime (s : Section α) : α :=
  if s.isEmpty then
    0.0
  else
    let m := s.slope
    let b := s.left.speed - m * s.lower
    if m == 0.0 then
      s.length / s.left.speed
    else
      1.0 / m *
        (Scalar.ln (Scalar.abs (m * s.upper + b)) - Scalar.ln (Scalar.abs (m * s.lower + b)))

end Section

/-- How a clip is cut up at a frame rate. -/
structure Breakdown (α : Type) where
  /-- The wait for the first frame at or after the start. -/
  startTrim : α
  /-- One section for each segment of the map. -/
  sections : List (Section α)
deriving Repr

namespace Breakdown

variable {α : Type} [Scalar α]

/-- The time that the sections take to play, before it is brought onto the
    grid. -/
def rawTotal (b : Breakdown α) : α :=
  Scalar.sum (b.sections.map Section.playTime)

end Breakdown

namespace FrameGrid

variable {α : Type} [Scalar α]

/-- Whether a number of frames counts as the given whole number. -/
def isOn (frames whole : α) : Bool :=
  Scalar.abs (frames - whole) < 1e-9

/-- The next whole number of frames, or the nearest where it counts as that. -/
def snapUp (frames : α) : α :=
  if isOn frames (Scalar.round frames) then Scalar.round frames else Scalar.ceil frames

/-- The beginning of the last frame that begins before a time. -/
def lastFrameBefore (g : FrameGrid α) (time : α) : α :=
  let frames := time * g.rate
  let nearest := Scalar.round frames
  if isOn frames nearest then
    nearest / g.rate - g.step
  else
    let last := Scalar.floor frames / g.rate
    if time - last < 1e-10 then last - g.step else last

/-- How a clip is cut up. -/
def breakdown (g : FrameGrid α) (m : SpeedMap α) : Breakdown α :=
  let trim := snapUp (m.start * g.rate) / g.rate - m.start
  let shift (time : α) := time - m.start - trim
  -- The upper bound of each segment: its right point, or the last frame.
  let uppers :=
    m.inner.map (fun p => shift p.time) ++
      [Scalar.roundTo 6 (shift (g.lastFrameBefore m.stop))]
  { startTrim := trim
    sections := m.segments.zipWith
      (fun (left, right) upper => ⟨left, right, shift left.time, upper⟩) uppers }

/-- How long sections play that take `raw` seconds: a whole number of frames
    and one more, to the millisecond. -/
def heldTime (g : FrameGrid α) (raw : α) : α :=
  Scalar.roundTo 3 (Scalar.round (raw * g.rate) / g.rate + g.step)

/-- How long a clip plays. -/
def playTime (g : FrameGrid α) (m : SpeedMap α) : α :=
  g.heldTime (g.breakdown m).rawTotal

/-- The grid of a frame rate, or the refusal of the rate. -/
def ofRate (rate : α) : Except (TimingError α) (FrameGrid α) :=
  match ofRate? rate with
  | some g => .ok g
  | none => .error (.badRate rate)

end FrameGrid

end Retime
