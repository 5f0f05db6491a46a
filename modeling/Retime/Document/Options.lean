import Retime.Document.Shape
import Retime.Options.Basic

/-!
# Options and Settings in Documents

How options, filters and the settings of a session are read and written.

Options that are left open are not written. What a session was given without
being interpreted is written behind everything else, so that no program that
edits a document loses what another has put there.

The options of a session stand among its settings. They are read from the
members that the settings do not know, after all that they do know, and
therefore out of values that have been evaluated already.

How a choice is read depends on that. In a text, whatever is neither a name
nor a map is malformed. In a value, it is refused with what was expected. And
among members that have been kept, an empty map counts as nothing.

## Main definitions

* `Options.shape`, `Options.members`: Reading and writing options.
* `Settings.read`, `Settings.members`: Reading and writing settings.
-/

namespace Retime

variable {α : Type} [Scalar α]

namespace LoopMode

/-- The names of all loop modes. -/
def names : List String := ["none", "fwrev", "fade"]

/-- Reads a name. -/
def readName (s : String) : Except (DocumentError α) LoopMode :=
  match ofName? s with
  | .some m => .ok m
  | .none => .error (.unknownChoice s names)

/-- Reads what stands under a name that nothing needs to stand under. -/
def readNothing (v : Source) : Except (DocumentError α) Unit :=
  match v with
  | .null => .ok ()
  | v => wrongType v "unit"

/-- Reads a loop mode in a text: a name, or a map with the name as its only key
    and null under it. -/
def readText (v : Source) : Except (DocumentError α) LoopMode :=
  match v with
  | .string s => readName s
  | .object ((key, v) :: ms) => do
    let m ← readName (← evaluated key)
    readNothing v
    match ms with
    | [] => return m
    | (_, .broken place) :: _ => throw (.text place.ended)
    | _ :: _ => throw (.text .malformed)
  | .broken place => .error (.text place.chosen)
  | _ => .error (.text .malformed)

/-- Reads a loop mode out of a value. What stands under the name has a reader
    of its own. -/
def readValue (readUnder : Source → Except (DocumentError α) Unit) (v : Source) :
    Except (DocumentError α) LoopMode :=
  match v with
  | .string s => readName s
  | .object [(key, v)] => do
    let m ← readName (← evaluated key)
    readUnder v
    return m
  | .object _ => .error .notSingle
  | v => wrongType v "string or map"

/-- Reads what stands under a name among members that have been kept. -/
def readNothingKept (v : Source) : Except (DocumentError α) Unit :=
  match v with
  | .object [] => .ok ()
  | v => readNothing v

/-- Reads a loop mode among members that have been kept. -/
def readKept (v : Source) : Except (DocumentError α) LoopMode :=
  readValue readNothingKept v

/-- Reads a loop mode. -/
def read (medium : Medium) (v : Source) : Except (DocumentError α) LoopMode :=
  match medium with
  | .text => readText v
  | .value => readValue readNothing v

end LoopMode

namespace FilterPreset

/-- The members of a filter that are interpreted. -/
def shape : Shape α (FilterPreset α) where
  name := "FilterPreset"
  blank := ⟨false, "", []⟩
  fields := [
    ⟨"enabled", true, fun v p => return { p with enabled := ← readBool v }⟩,
    ⟨"desc", true, fun v p => return { p with description := ← readText v }⟩]

/-- Reads a filter and keeps its parameters. -/
def read (v : Source) : Except (DocumentError α) (FilterPreset α) := do
  let (p, rest) ← shape.readOpen v
  return { p with parameters := ← readRest rest }

/-- A filter as a value. -/
def toJson (p : FilterPreset α) : Json α :=
  .object (("enabled", .bool p.enabled) :: ("desc", .string p.description) :: p.parameters)

end FilterPreset

namespace Options

/-- The members that options may have, with the reader of loop modes. -/
def shape (readLoop : Source → Except (DocumentError α) LoopMode) : Shape α (Options α) where
  name := "EncodeOptions"
  blank := .empty
  fields := [
    ⟨"titlePrefix", false, fun v o => return { o with titlePrefix := ← readOption readText v }⟩,
    ⟨"gamma", false, fun v o => return { o with gamma := ← readOption readReal v }⟩,
    ⟨"encodeSpeed", false, fun v o => return { o with encodeSpeed := ← readOption readByte v }⟩,
    ⟨"crf", false, fun v o => return { o with rateFactor := ← readOption readByte v }⟩,
    ⟨"targetMaxBitrate", false,
      fun v o => return { o with maxBitrate := ← readOption readWord v }⟩,
    ⟨"twoPass", false, fun v o => return { o with twoPass := ← readOption readBool v }⟩,
    ⟨"audio", false, fun v o => return { o with audio := ← readOption readBool v }⟩,
    ⟨"expandColorRange", false,
      fun v o => return { o with expandColors := ← readOption readBool v }⟩,
    ⟨"denoise", false,
      fun v o => return { o with denoise := ← readOption FilterPreset.read v }⟩,
    ⟨"videoStabilization", false,
      fun v o => return { o with stabilization := ← readOption FilterPreset.read v }⟩,
    ⟨"enableSpeedMaps", false,
      fun v o => return { o with speedMaps := ← readOption readBool v }⟩,
    ⟨"roundSpeedMapEasing", false,
      fun v o => return { o with speedRounding := ← readOption readReal v }⟩,
    ⟨"loop", false,
      fun v o => return { o with loopMode := ← readOption readLoop v }⟩,
    ⟨"fadeDuration", false,
      fun v o => return { o with fadeDuration := ← readOption readReal v }⟩]

/-- Reads the options of a pair. -/
def read (medium : Medium) (v : Source) : Except (DocumentError α) (Options α) :=
  (shape (LoopMode.read medium)).readClosed medium v

/-- Reads options out of a value. -/
def ofValue (v : Source) : Except (DocumentError α) (Options α) :=
  read .value v.settled

/-- The members that options are written as. -/
def members (o : Options α) : List (String × Json α) :=
  Json.member? "titlePrefix" (o.titlePrefix.map .string) ++
    Json.member? "gamma" (o.gamma.map .real) ++
    Json.member? "encodeSpeed" (o.encodeSpeed.map fun n => .nat n.toNat) ++
    Json.member? "crf" (o.rateFactor.map fun n => .nat n.toNat) ++
    Json.member? "targetMaxBitrate" (o.maxBitrate.map fun n => .nat n.toNat) ++
    Json.member? "twoPass" (o.twoPass.map .bool) ++
    Json.member? "audio" (o.audio.map .bool) ++
    Json.member? "expandColorRange" (o.expandColors.map .bool) ++
    Json.member? "denoise" (o.denoise.map FilterPreset.toJson) ++
    Json.member? "videoStabilization" (o.stabilization.map FilterPreset.toJson) ++
    Json.member? "enableSpeedMaps" (o.speedMaps.map .bool) ++
    Json.member? "roundSpeedMapEasing" (o.speedRounding.map .real) ++
    Json.member? "loop" (o.loopMode.map fun m => .string m.name) ++
    Json.member? "fadeDuration" (o.fadeDuration.map .real)

/-- Options as a value. -/
def toJson (o : Options α) : Json α :=
  .object o.members

end Options

/-- Reads a crop. -/
def Crop.read (v : Source) : Except (DocumentError α) Crop := do
  marking (Crop.parse (← readText v))

namespace Settings

/-- The members that settings know, apart from options. -/
def shape : Shape α (Settings α) where
  name := "Settings"
  blank := .initial
  fields := [
    ⟨"videoID", false, fun v s => return { s with videoId := ← readOption readText v }⟩,
    ⟨"videoTitle", false, fun v s => return { s with videoTitle := ← readOption readText v }⟩,
    ⟨"titleSuffix", false, fun v s => return { s with titleSuffix := ← readOption readText v }⟩,
    ⟨"isVerticalVideo", false, fun v s => return { s with isVertical := ← readBool v }⟩,
    ⟨"newMarkerSpeed", false, fun v s => return { s with newSpeed := ← readReal v }⟩,
    ⟨"newMarkerCrop", false, fun v s => return { s with newCrop := ← Crop.read v }⟩,
    ⟨"cropResWidth", false,
      fun v s => return { s with resolution.width := ← readWord v }⟩,
    ⟨"cropResHeight", false,
      fun v s => return { s with resolution.height := ← readWord v }⟩,
    ⟨"markerPairMergeList", false, fun v s => return { s with mergeList := ← readText v }⟩]

/-- The settings with the options and the uninterpreted values among members
    that they do not know. -/
def complete (s : Settings α) (rest : List Source.Member) :
    Except (DocumentError α) (Settings α) := do
  let (options, rest) ← (Options.shape LoopMode.readKept).readMembers passOver rest
  return { s with options, extra := ← readRest rest }

/-- Reads settings from members that have been evaluated already. -/
def ofMembers (ms : List Source.Member) : Except (DocumentError α) (Settings α) := do
  let (s, rest) ← shape.readMembers passOver ms
  s.complete rest

/-- Reads settings. -/
def read (v : Source) : Except (DocumentError α) (Settings α) := do
  let (s, rest) ← shape.readOpen v
  s.complete rest

/-- Reads settings out of a value. -/
def ofValue (v : Source) : Except (DocumentError α) (Settings α) :=
  read v.settled

/-- The members that settings are written as. -/
def members (s : Settings α) : List (String × Json α) :=
  Json.member? "videoID" (s.videoId.map .string) ++
    Json.member? "videoTitle" (s.videoTitle.map .string) ++
    Json.member? "titleSuffix" (s.titleSuffix.map .string) ++
    [("isVerticalVideo", .bool s.isVertical),
      ("newMarkerSpeed", .real s.newSpeed),
      ("newMarkerCrop", .string s.newCrop.text),
      ("cropResWidth", .nat s.resolution.width.toNat),
      ("cropResHeight", .nat s.resolution.height.toNat),
      ("markerPairMergeList", .string s.mergeList)] ++
    s.options.members ++ s.extra

/-- Settings as a value. -/
def toJson (s : Settings α) : Json α :=
  .object s.members

end Settings

end Retime
