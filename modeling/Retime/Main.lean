import Retime.Command.Help
import Retime.Command.Report
import Std.Time

/-!
# The Program

The command line as a program: what it reads, prints and writes.

All decisions are made by the report of the invocation. Here the files are
read that it needs, its lines are printed, and the document is saved that it
leaves.

The program ends with zero if it did what it was asked to do, with two if the
words of the command line made no sense, and with one if anything else failed.
-/

namespace Retime

namespace Command

/-- The file of the configuration where none is named. -/
def standardConfig : IO String := do
  match ← IO.getEnv "XDG_CONFIG_HOME" with
  | some base => return base ++ "/clipmarks/config.json"
  | none =>
    let home := (← IO.getEnv "HOME").getD "/tmp"
    return home ++ "/.config/clipmarks/config.json"

/-- The content of a file, if it can be read. -/
def contentOf (path : String) : IO (Option String) := do
  try
    return some (← IO.FS.readFile path)
  catch _ =>
    return none

/-- The present time as a document records it. -/
def timestamp : IO String := do
  let now := Std.Time.DateTime.ofTimestampWithZone (← Std.Time.Timestamp.now) .UTC
  return now.format "uuuu-MM-dd'T'HH:mm:ss.SSSSSSSSSxxx"

/-- Prints lines. -/
def printLines (lines : List String) : IO Unit :=
  lines.forM IO.println

/-- Tells why the program failed. -/
def complain (message : String) : IO UInt32 := do
  IO.eprintln ("Error: " ++ message)
  return 1

/-- Does what an invocation asks for. -/
def Invocation.perform (i : Invocation) : IO UInt32 := do
  let config ← contentOf (← i.config.getDM standardConfig)
  let markers ← contentOf i.file
  let report := i.report config markers
  printLines report.lines
  match report.ending with
  | .done => return 0
  | .failed message => complain message
  | .saves document lines =>
    let text := (document.stamped (← timestamp)).text
    let saved ←
      try
        IO.FS.writeFile i.file text
        pure true
      catch _ =>
        pure false
    if saved then
      printLines lines
      return 0
    else
      complain ("Failed to save markers file " ++ i.file)

end Command

end Retime

/-- Reads the command line and does what it asks for. -/
def main (args : List String) : IO UInt32 := do
  match Retime.Command.Invocation.ofArgs args with
  | .ok i => i.perform
  | .error (.help topic) =>
    Retime.Command.printLines (Retime.Command.helpText topic)
    return 0
  | .error .version =>
    IO.println Retime.Command.versionText
    return 0
  | .error .usage =>
    (Retime.Command.helpText none).forM fun line => IO.eprintln line
    return 2
