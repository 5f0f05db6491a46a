import Retime.Options.Resolve
import Retime.Speed.Duration

/-!
# The Timing of a Pair

How long the exported clip of a pair is, once its options are resolved.

Speed maps may be switched off for a pair. Its clip then plays throughout at
the speed of its start, and everything else is computed from that map.

A loop changes the length again. A clip that runs forwards and backwards has
both legs, but the two frames at which they meet are shown once. A fade takes
its own length off the clip; it may not take more than a share of it, but has
a least length that prevails over the share.

## Main definitions

* `Pair.effectiveMap`: The map that the export applies.
* `effectiveFade`: The fade that is applied where one is asked for.
* `PairTiming`: The lengths of an exported clip.
* `Pair.timing`: The lengths of the clip of a pair.
-/

namespace Retime

variable {α : Type} [Scalar α]

/-- The map that the export applies. -/
def Pair.effectiveMap (p : Pair α) (speedMaps : Bool) : Except (TimingError α) (SpeedMap α) :=
  if speedMaps then
    .ok p.map
  else
    match SpeedMap.constant p.start p.stop p.speed with
    | .ok m => .ok m
    | .error cause => .error (.marker cause)

/-- The fade that is applied where one is asked for: at most two fifths of the
    clip, but at least a tenth of a second. -/
def effectiveFade (requested playTime : α) : α :=
  Scalar.greater 0.1 (Scalar.lesser requested (0.4 * playTime))

/-- A length to the millisecond. -/
def roundMillis (x : α) : α :=
  Scalar.round (x * 1000.0) / 1000.0

/-- The lengths of an exported clip. -/
structure PairTiming (α : Type) where
  speedMaps : Bool
  /-- Whether the export has to vary the speed. -/
  isVariable : Bool
  /-- The length of the clip played once. -/
  playTime : α
  loopMode : LoopMode
  /-- The fade that is applied, if there is one. -/
  fade : Option α
  /-- The length of the clip with its loop. -/
  loopedTime : α
deriving Repr

/-- The length of a looping clip, and the fade in it. -/
def loopedTime (g : FrameGrid α) (m : SpeedMap α) (mode : LoopMode) (fade : α) :
    α × Option α :=
  let forward := g.playTime m
  match mode with
  | .none => (forward, none)
  | .forwardReverse => (roundMillis (forward + g.playTime m.reversed - 2.0 * g.step), none)
  | .fade =>
    let applied := effectiveFade fade forward
    (roundMillis (forward - applied), some applied)

/-- The lengths of the clip of a pair. -/
def Pair.timing (p : Pair α) (r : Resolved α) (g : FrameGrid α) :
    Except (TimingError α) (PairTiming α) := do
  let map ← p.effectiveMap r.speedMaps
  let (looped, fade) := loopedTime g map r.loopMode r.fadeDuration
  return {
    speedMaps := r.speedMaps
    isVariable := r.speedMaps && map.isVariable && r.loopMode != .forwardReverse
    playTime := g.playTime map
    loopMode := r.loopMode
    fade
    loopedTime := looped }

end Retime
