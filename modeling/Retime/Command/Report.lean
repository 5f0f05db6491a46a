import Retime.Command.Invocation
import Retime.Document.Config
import Retime.Issues
import Retime.Speed.Sample

/-!
# Reports

What the program answers to an invocation.

A report is a row of lines and an end. The end matters because some lines
stand even where the action fails afterwards, and because an action may leave
a document to be saved. Nothing here reads or writes a file: the contents of
the files go in, and what is to be saved comes out.

Everything is computed from a document alone, apart from three things that the
configuration decides: the frame rate where none is given, the easing, and the
decimals of a rounded speed.

## Main definitions

* `Report`: What the program answers.
* `Invocation.report`: The answer to an invocation.
-/

namespace Retime

namespace Command

/-- How a report ends. -/
inductive Ending where
  | done
  /-- The action failed, for a reason that is told. -/
  | failed (message : String)
  /-- A document is to be saved. The lines are for when it has been. -/
  | saves (document : Markers Float) (lines : List String)

/-- What the program answers. -/
structure Report where
  lines : List String
  ending : Ending

namespace Report

/-- A report of an action that fails without having said anything. -/
def failure (message : String) : Report :=
  ⟨[], .failed message⟩

/-- The report of a result, or of its refusal. -/
def ofResult (r : Except (EditError Float) Report) : Report :=
  match r with
  | .ok report => report
  | .error cause => failure cause.message

end Report

/-- The number of a place, with places counted from zero, in a column. -/
def numberColumn (index : Nat) : String :=
  String.ofList (Text.padLeft ' ' 3 (Text.digits (index + 1)))

/-- Numbers in a row. -/
def numbersText (ns : List UInt64) : String :=
  "[" ++ ", ".intercalate (ns.map fun n => Text.natText n.toNat) ++ "]"

/-- A time of the breakdown. -/
def fineText (x : Float) : String :=
  Decimal.fixed 6 x

/-! ## Showing a document -/

/-- The lines about the document and the video. -/
def headLines (file : String) (d : Markers Float) : List String :=
  let s := d.settings
  ["Markers: " ++ file, "  Version: " ++ d.version.getD "-"] ++
    (d.modified.map fun t => "  Modified: " ++ t).toList ++
    ["", "Video:", "  ID: " ++ s.videoId.getD "-"] ++
    (s.videoTitle.map fun t => "  Title: " ++ t).toList ++
    ["  Vertical: " ++ (if s.isVertical then "true" else "false"),
      "  Crop resolution: " ++ s.resolution.text, ""]

/-- The lines about what new pairs get. -/
def defaultLines (c : Config Float) (s : Settings Float) : List String :=
  ["Defaults:",
    "  New marker speed: " ++ numberText s.newSpeed,
    "  New marker crop: " ++ s.newCrop.text,
    "  Speed maps: " ++ (if s.options.speedMaps.getD true then "enabled" else "disabled"),
    "  Preview easing: " ++ c.easing, ""]

/-- The lines about one pair. -/
def pairLines (p : Pair Float) (index : Nat) : List String :=
  let points :=
    if p.map.isVariable then " (map, " ++ Text.natText p.map.points.length ++ " points)" else ""
  ["  " ++ numberColumn index ++ ". " ++ clockText p.start ++ " - " ++ clockText p.stop ++
      "  speed " ++ numberText p.speed ++ points ++ "  crop " ++ p.crop.text ++ "  out " ++
      numberText p.playTime ++ "s"] ++
    (if p.overrides.isEmpty then []
      else ["       overrides " ++ Json.compact p.overrides.toJson])

/-- The lines about the merge list, if there is one. -/
def mergeLines (list : String) : List String :=
  if list.isEmpty then []
  else
    ["", "Merge list: " ++ list] ++ (MergeList.expand list).map fun (source, ns) =>
      "  [" ++ source ++ "] -> " ++ numbersText ns

/-- Shows a document. -/
def infoReport (c : Config Float) (file : String) (d : Markers Float) : Report :=
  ⟨headLines file d ++ defaultLines c d.settings ++
    ["Marker pairs (" ++ Text.natText d.pairs.length ++ "):"] ++
    (d.pairs.zipIdx.map fun (p, i) => pairLines p i).flatten ++
    mergeLines d.settings.mergeList, .done⟩

/-! ## Checking a document -/

/-- The line that stands in front of a check, even of a document that cannot
    be read. -/
def checkLine (file : String) : String :=
  "Validating markers at: " ++ file

/-- Lists the issues of a document. -/
def checkReport (c : Config Float) (d : Markers Float) : Except (EditError Float) Report := do
  let issues ← d.issues c.rate
  let found :=
    if issues.isEmpty then
      ["Markers file is valid."]
    else
      ["Validation issues:"] ++ (issues.map fun issue => "  - " ++ issue.message) ++
        ["", Text.natText issues.length ++ " issue(s) found."]
  return ⟨["  Marker pairs: " ++ Text.natText d.pairs.length, ""] ++ found, .done⟩

/-! ## Durations -/

/-- What a loop makes of a duration. -/
def loopNote (t : PairTiming Float) : String :=
  match t.loopMode with
  | .none => ""
  | .forwardReverse => "  fwrev -> " ++ numberText t.loopedTime ++ "s"
  | .fade =>
    "  fade " ++ numberText (t.fade.getD 0.0) ++ "s -> " ++ numberText t.loopedTime ++ "s"

/-- The line about one section. -/
def sectionLine (s : Section Float) (index : Nat) : String :=
  "       seg " ++ Text.natText index ++ ": " ++
    if s.isEmpty then "skipped"
    else
      "[" ++ fineText s.lower ++ ", " ++ fineText s.upper ++ "] speed " ++
        numberText s.left.speed ++ " -> " ++ numberText s.right.speed ++ "  +" ++
        fineText s.playTime ++ "s"

/-- The lines about how a clip is cut up. -/
def breakdownLines (b : Breakdown Float) : List String :=
  ["       start trim " ++ fineText b.startTrim ++ "s"] ++
    (b.sections.zipIdx.map fun (s, i) => sectionLine s i) ++
    ["       raw " ++ fineText b.rawTotal ++ "s"]

/-- The lines about the duration of one pair. -/
def durationLines (g : FrameGrid Float) (breakdown : Bool) (p : Pair Float)
    (t : PairTiming Float) (index : Nat) : Except (EditError Float) (List String) := do
  let line := "  " ++ numberColumn index ++ ". " ++ numberText t.playTime ++ "s (" ++
    Text.natText (g.count t.playTime) ++ " frames, naive " ++ Decimal.fixed 3 p.naiveTime ++
    "s)" ++ (if t.isVariable then "  variable" else "") ++ loopNote t
  if breakdown then
    let map ← EditError.liftTiming (p.effectiveMap t.speedMaps)
    return line :: breakdownLines (g.breakdown map)
  else
    return [line]

/-- Computes how long all clips play. -/
def durationsReport (file : String) (d : Markers Float) (rate : Float) (breakdown write : Bool) :
    Except (EditError Float) Report := do
  let store ← Store.ofPairs d.pairs rate
  let timings ← store.pairs.mapM fun p =>
    EditError.liftTiming (p.timing (p.resolve d.settings none) store.grid)
  let lines ← (store.pairs.zip timings).zipIdx.mapM fun ((p, t), i) =>
    durationLines store.grid breakdown p t i
  let total := Scalar.sum (timings.map PairTiming.loopedTime)
  return {
    lines := ["Output durations at " ++ numberText rate ++ "fps:"] ++ lines.flatten ++
      ["Total: " ++ clockText total]
    ending := if write then .saves (store.writeTo d) ["", "Updated " ++ file] else .done }

/-! ## Samples -/

/-- Looks the speed of a pair up. -/
def sampleReport (c : Config Float) (d : Markers Float) (number : Nat) (time : Float)
    (easing : Option String) (rounding : Option Float) : Except (EditError Float) Report := do
  let store ← Store.ofPairs d.pairs c.rate
  if number = 0 then
    return .failure "Marker pair numbers start at 1"
  let p ← store.pair (number - 1)
  match (Easing.parse (easing.getD c.easing) : Except (TimingError Float) Easing) with
  | .error _ => return .failure "Invalid easing"
  | .ok easing =>
    let multiple := rounding.getD (d.settings.roundingFor p.overrides)
    let speed := p.map.sample ⟨easing, multiple, c.precision⟩ time
    return ⟨["Pair " ++ Text.natText number ++ " at " ++ numberText time ++ "s (frame " ++
      Text.intText (store.grid.index time) ++ "): speed " ++ numberText speed ++ " (" ++
      easing.name ++ ", round " ++ numberText multiple ++ ")"], .done⟩

/-! ## Merge lists -/

/-- Expands a merge list. -/
def mergeReport (d : Markers Float) (list : Option String) : Report :=
  let list := list.getD d.settings.mergeList
  if (Text.trim list.toList).isEmpty then
    ⟨["No merge list."], .done⟩
  else
    let groups := (MergeList.parse list).filter fun g => !g.numbers.isEmpty
    let times : List Float := MergeList.naiveTimes list d.pairs
    ⟨["Merge list: " ++ list] ++
      (groups.map fun g => "  [" ++ g.source ++ "] pairs " ++ numbersText g.numbers ++ "  ~" ++
        clockText (g.naiveTime d.pairs)) ++
      ["Durations: " ++ MergeList.timesText times], .done⟩

/-! ## Everything -/

/-- The configuration of an invocation, out of the content of its file. One
    that is named has to be there and to be right. -/
def Invocation.configOf (i : Invocation) (content : Option String) :
    Except String (Config Float) :=
  let config := Config.parse content
  match i.config, config with
  | some file, .error _ => .error ("Failed to load config " ++ file)
  | _, config => .ok (Config.orInitial config)

/-- The report of an action on a document. -/
def actionReport (c : Config Float) (file : String) (d : Markers Float) : Action → Report
  | .info => infoReport c file d
  | .validate => .ofResult (checkReport c d)
  | .durations rate breakdown write =>
    .ofResult (durationsReport file d (rate.getD c.rate) breakdown write)
  | .sample number time easing rounding =>
    .ofResult (sampleReport c d number time easing rounding)
  | .merge list => mergeReport d list

/-- What is said before the document is read. -/
def Action.opening (file : String) : Action → List String
  | .validate => [checkLine file]
  | _ => []

/-- The answer to an invocation, out of the contents of the files that it
    names. -/
def Invocation.report (i : Invocation) (config markers : Option String) : Report :=
  match i.configOf config with
  | .error message => .failure message
  | .ok c =>
    let opening := i.action.opening i.file
    match markers.map Markers.parse with
    | some (.ok d) =>
      let report := actionReport c i.file d i.action
      { report with lines := opening ++ report.lines }
    | _ => ⟨opening, .failed ("Failed to load markers file " ++ i.file)⟩

end Command

end Retime
