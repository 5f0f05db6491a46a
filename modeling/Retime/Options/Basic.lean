import Retime.Frame.Crop
import Retime.Json.Value

/-!
# Options of an Export

What can be chosen about how a clip is exported and previewed.

Every option may be left open. The same record of options appears at two
levels, for a single pair and for the session, and what the pair leaves open
the session decides: `laidOver` lays one record over another. Only where both
leave an option open does a built-in value step in, which is not a matter of
this module.

A rounding of speeds that is negative, or no number, counts as left open.

## Main definitions

* `LoopMode`: What happens at the end of a looping clip.
* `FilterPreset`: A filter with its parameters.
* `Options`: The options of one level.
* `Options.laidOver`: One level laid over another.
* `Settings`: The choices of a session.
-/

namespace Retime

/-- What happens at the end of a looping clip. -/
inductive LoopMode where
  | none
  /-- The clip is played forwards and then backwards. -/
  | forwardReverse
  /-- The end is faded into the start. -/
  | fade
deriving DecidableEq, Repr

namespace LoopMode

/-- The name of a loop mode. -/
def name : LoopMode → String
  | .none => "none"
  | .forwardReverse => "fwrev"
  | .fade => "fade"

/-- The loop mode of a name. -/
def ofName? (s : String) : Option LoopMode :=
  [LoopMode.none, .forwardReverse, .fade].find? fun m => m.name = s

end LoopMode

/-- A filter, of which only two things are interpreted. -/
structure FilterPreset (α : Type) where
  enabled : Bool
  description : String
  /-- What else was given for the filter, ordered by its keys. -/
  parameters : List (String × Json α)

/-- A filter that does nothing. -/
def FilterPreset.disabled {α : Type} : FilterPreset α :=
  ⟨false, "Disabled", []⟩

/-- The options of one level, each of which may be left open. -/
structure Options (α : Type) where
  titlePrefix : Option String := none
  gamma : Option α := none
  encodeSpeed : Option UInt8 := none
  /-- The constant rate factor. -/
  rateFactor : Option UInt8 := none
  /-- The largest bitrate to aim at, in kilobits per second. -/
  maxBitrate : Option UInt32 := none
  twoPass : Option Bool := none
  audio : Option Bool := none
  expandColors : Option Bool := none
  denoise : Option (FilterPreset α) := none
  stabilization : Option (FilterPreset α) := none
  speedMaps : Option Bool := none
  /-- The multiple that previewed speeds are rounded to. -/
  speedRounding : Option α := none
  loopMode : Option LoopMode := none
  fadeDuration : Option α := none

namespace Options

variable {α : Type}

/-- All options left open. -/
def empty : Options α := {}

/-- Whether all options are left open. -/
def isEmpty (o : Options α) : Bool :=
  o.titlePrefix.isNone && o.gamma.isNone && o.encodeSpeed.isNone && o.rateFactor.isNone &&
    o.maxBitrate.isNone && o.twoPass.isNone && o.audio.isNone && o.expandColors.isNone &&
    o.denoise.isNone && o.stabilization.isNone && o.speedMaps.isNone &&
    o.speedRounding.isNone && o.loopMode.isNone && o.fadeDuration.isNone

variable [Scalar α]

/-- The rounding that is chosen: one that is negative is none. -/
def rounding? (o : Options α) : Option α :=
  o.speedRounding.filter fun x => decide ((0.0 : α) ≤ x)

/-- One level laid over another, which decides what the first leaves open. -/
def laidOver (upper lower : Options α) : Options α where
  titlePrefix := upper.titlePrefix.or lower.titlePrefix
  gamma := upper.gamma.or lower.gamma
  encodeSpeed := upper.encodeSpeed.or lower.encodeSpeed
  rateFactor := upper.rateFactor.or lower.rateFactor
  maxBitrate := upper.maxBitrate.or lower.maxBitrate
  twoPass := upper.twoPass.or lower.twoPass
  audio := upper.audio.or lower.audio
  expandColors := upper.expandColors.or lower.expandColors
  denoise := upper.denoise.or lower.denoise
  stabilization := upper.stabilization.or lower.stabilization
  speedMaps := upper.speedMaps.or lower.speedMaps
  speedRounding := upper.rounding?.or lower.rounding?
  loopMode := upper.loopMode.or lower.loopMode
  fadeDuration := upper.fadeDuration.or lower.fadeDuration

end Options

/-- The multiple that previewed speeds are rounded to unless chosen. -/
def defaultRounding {α : Type} [Scalar α] : α := 0.05

/-- The length of a fade unless chosen, in seconds. -/
def defaultFade {α : Type} [Scalar α] : α := 0.5

/-- The choices of a session. -/
structure Settings (α : Type) where
  videoId : Option String
  videoTitle : Option String
  titleSuffix : Option String
  /-- Whether the video is taller than wide. -/
  isVertical : Bool
  /-- The speed that new pairs get. -/
  newSpeed : α
  /-- The crop that new pairs get. -/
  newCrop : Crop
  /-- The resolution that crops are counted in. -/
  resolution : Resolution
  /-- Which pairs are joined to longer clips, as it was written. -/
  mergeList : String
  /-- What pairs leave open. -/
  options : Options α
  /-- What else was given for the session, ordered by its keys. -/
  extra : List (String × Json α)

namespace Settings

variable {α : Type} [Scalar α]

/-- The choices of a session that has made none. -/
def initial : Settings α where
  videoId := none
  videoTitle := none
  titleSuffix := none
  isVertical := false
  newSpeed := 1.0
  newCrop := .full
  resolution := .landscape
  mergeList := ""
  options := .empty
  extra := []

/-- The choices for a video, whose name goes into the titles of its clips. -/
def forVideo (id : String) (vertical : Bool) : Settings α :=
  { initial with
    videoId := some id
    titleSuffix := some ("[" ++ id ++ "]")
    isVertical := vertical
    resolution := if vertical then .portrait else .landscape }

/-- Whether speed maps are applied to a pair with the given options. -/
def speedMapsFor (s : Settings α) (pair : Options α) : Bool :=
  (pair.speedMaps.or s.options.speedMaps).getD true

/-- The multiple that the speeds of a pair with the given options are rounded
    to. -/
def roundingFor (s : Settings α) (pair : Options α) : α :=
  (pair.rounding?.or s.options.rounding?).getD defaultRounding

end Settings

end Retime
