import Retime.Command.Args

/-!
# Help

What the program says about itself.

The help is written from the table of switches, so that it cannot fall behind
it. Names stand in one column and what they are about in another.

## Main definitions

* `helpText`: What can be said on a command line.
* `versionText`: The program and its version.
-/

namespace Retime

namespace Command

/-- The name of the program. -/
def programName : String := "clipmarks"

/-- The version of the program. -/
def programVersion : String := "0.1.0"

/-- The program and its version. -/
def versionText : String :=
  programName ++ " " ++ programVersion

/-- What an action does. -/
def Verb.about : Verb → String
  | .info => "Show the settings and marker pairs of a markers file"
  | .validate => "Check that every marker pair and speed map is well formed"
  | .durations => "Compute the exact output duration of every marker pair"
  | .sample => "Sample the playback speed of a marker pair at a source time"
  | .merge => "Expand a merge list and estimate each merged clip's duration"

/-- A switch as it is given. -/
def Switch.synopsis (sw : Switch) : String :=
  let letter :=
    match sw.letter with
    | some c => "-" ++ String.ofList [c] ++ ", "
    | none => "    "
  let symbol :=
    match sw.effect with
    | .value symbol _ => " <" ++ symbol ++ ">"
    | _ => ""
  letter ++ "--" ++ sw.name ++ symbol

/-- Rows of two columns. -/
def columns (rows : List (String × String)) : List String :=
  let width := (rows.map fun row => row.1.length).foldl max 0
  rows.map fun (name, about) =>
    "  " ++ name ++ String.ofList (List.replicate (width - name.length + 2) ' ') ++ about

/-- The rows of the switches. -/
def switchRows (v : Option Verb) : List String :=
  "Options:" :: columns ((switches v).map fun sw => (sw.synopsis, sw.about))

/-- What has to be said with an action beside the file. -/
def Verb.required : Verb → String
  | .sample => "--pair <PAIR> --time <TIME> "
  | _ => ""

/-- What can be said on a command line, with an action or about all. -/
def helpText : Option Verb → List String
  | some v =>
    [v.about, "",
      "Usage: " ++ programName ++ " " ++ v.word ++ " [OPTIONS] " ++ v.required ++ "<FILE>", "",
      "Arguments:"] ++ columns [("<FILE>", "Path to the markers JSON file")] ++ [""] ++
      switchRows (some v)
  | none =>
    ["Frame-accurate timing for variable-speed video clips", "",
      "Usage: " ++ programName ++ " [OPTIONS] <COMMAND>", "", "Commands:"] ++
      columns (Verb.all.map (fun v => (v.word, v.about)) ++
        [("help", "Print this message or the help of the given subcommand(s)")]) ++ [""] ++
      switchRows none

end Command

end Retime
