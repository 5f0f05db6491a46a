import Retime.Scalar

/-!
# The Frame Grid

The instants at which the frames of a video begin.

Times are measured in seconds, but a video is cut between frames, so times
are brought down to the frame they fall into. The frame at index `k` begins
at `k / rate`.

A rate has to be positive and finite. `ofRate?` is the only way to a grid
that asks for it.

## Main definitions

* `FrameGrid`: The frames at a rate.
* `FrameGrid.index`: The frame that a time falls into.
* `FrameGrid.snapDown`: The beginning of that frame.
* `FrameGrid.count`: The number of frames in a duration.
-/

namespace Retime

/-- The frames of a video at a constant rate. -/
structure FrameGrid (α : Type) where
  /-- Frames in a second. -/
  rate : α
deriving Repr

namespace FrameGrid

variable {α : Type} [Scalar α]

/-- The grid of a rate that is positive and finite. -/
def ofRate? (rate : α) : Option (FrameGrid α) :=
  if Scalar.isPositive rate then some ⟨rate⟩ else none

/-- The time that one frame is shown. -/
def step (g : FrameGrid α) : α :=
  1.0 / g.rate

/-- The index of the frame that a time falls into, kept within 64 bits. -/
def index (g : FrameGrid α) (time : α) : Int :=
  Scalar.toInt (-0x8000000000000000) 0x7fffffffffffffff (Scalar.floor (time * g.rate))

/-- The beginning of the frame that a time falls into. -/
def snapDown (g : FrameGrid α) (time : α) : α :=
  Scalar.floor (time * g.rate) / g.rate

/-- The number of frames in a duration, to the nearest, so that a duration
    stored to the millisecond still counts its last frame. -/
def count (g : FrameGrid α) (duration : α) : Nat :=
  (Scalar.toInt 0 (UInt64.size - 1) (Scalar.round (duration * g.rate))).toNat

end FrameGrid

end Retime
