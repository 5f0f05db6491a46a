import Retime.Options.Bitrate
import Retime.Pair.Basic

/-!
# Resolving Options

The value of every option for one pair: the pair's own, else that of the
session, else a built-in one.

The built-in values of the encoding come from the bitrate of the source. A
crop leaves a part of the picture away, and with it that part of the bitrate,
so the table is asked for the bitrate times the share of the picture that the
crop covers. A bitrate that somebody chose to aim at goes through the table
in the same way.

## Main definitions

* `Resolved`: The value of every option.
* `Pair.resolve`: The values for a pair.
-/

namespace Retime

/-- The value of every option. -/
structure Resolved (α : Type) where
  titlePrefix : Option String
  gamma : α
  encodeSpeed : UInt8
  rateFactor : UInt8
  maxBitrate : UInt32
  twoPass : Bool
  audio : Bool
  expandColors : Bool
  denoise : FilterPreset α
  stabilization : FilterPreset α
  speedMaps : Bool
  speedRounding : α
  loopMode : LoopMode
  fadeDuration : α
  /-- The share of the picture that the crop covers. -/
  cropShare : α

/-- The values of the options of a pair, for a source of the given bitrate. -/
def Pair.resolve {α : Type} [Scalar α] (p : Pair α) (s : Settings α) (kbps : Option α) :
    Resolved α :=
  let share := p.crop.share s.resolution
  let table := EncodeDefaults.ofBitrate (kbps.map (· * share))
  let chosen := p.overrides.laidOver s.options
  let maxBitrate :=
    match chosen.maxBitrate with
    -- What was set is looked up like the bitrate of a source.
    | some target =>
      (EncodeDefaults.ofBitrate (some (Scalar.ofNat target.toNat * share))).maxBitrate
    | none => table.maxBitrate
  { titlePrefix := chosen.titlePrefix
    gamma := chosen.gamma.getD 1.0
    encodeSpeed := chosen.encodeSpeed.getD table.encodeSpeed
    rateFactor := chosen.rateFactor.getD table.rateFactor
    maxBitrate
    twoPass := chosen.twoPass.getD table.twoPass
    audio := chosen.audio.getD false
    expandColors := chosen.expandColors.getD false
    denoise := chosen.denoise.getD .disabled
    stabilization := chosen.stabilization.getD .disabled
    speedMaps := chosen.speedMaps.getD true
    speedRounding := chosen.speedRounding.getD defaultRounding
    loopMode := chosen.loopMode.getD .none
    fadeDuration := chosen.fadeDuration.getD defaultFade
    cropShare := share }

end Retime
