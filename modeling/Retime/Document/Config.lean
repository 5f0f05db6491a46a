import Retime.Document.Shape
import Retime.Json.Writer
import Retime.Scalar.Double

/-!
# The Configuration

What somebody has set for all sessions: the frame rate that is assumed where
it cannot be found out, how speeds are previewed, and what is logged.

A configuration with a frame rate that is none is refused, when it is read as
well as when it is written. Where a program can do without, it falls back to
the one that is built in.

## Main definitions

* `Config`: The configuration.
* `Config.parse`, `Config.text`: Reading and writing it.
* `Config.orInitial`: The configuration to use where reading it may fail.
-/

namespace Retime

/-- The configuration of all sessions. -/
structure Config (α : Type) where
  /-- The frame rate that is assumed. -/
  rate : α
  /-- The name of the easing that previews start with. -/
  easing : String
  /-- The decimals that are kept of a rounded speed. -/
  precision : UInt32
  /-- Which log messages are kept. -/
  logLevel : String
  /-- Whether log messages are structured. -/
  logJson : Bool
  /-- The file that log messages go to. -/
  logFile : Option String

/-- Why a configuration is refused. -/
inductive ConfigError (α : Type) where
  /-- There is no file. -/
  | noFile
  | document (cause : DocumentError α)
  | badRate (rate : α)
deriving Repr

/-- The wording of a refused frame rate. -/
def ConfigError.rateMessage (rate : Float) : String :=
  "Configuration error: default_fps must be positive, got " ++ numberText rate

namespace Config

variable {α : Type} [Scalar α]

/-- The configuration that is built in. -/
def initial : Config α where
  rate := 60.0
  easing := "linear"
  precision := 2
  logLevel := "info"
  logJson := false
  logFile := none

/-- The members that say how speeds are previewed. -/
def previewShape : Shape α (Config α) where
  name := "PreviewDefaults"
  blank := initial
  fields := [
    ⟨"easing", false, fun v c => return { c with easing := ← readText v }⟩,
    ⟨"round_precision", false, fun v c => return { c with precision := ← readWord v }⟩]

/-- The members that say what is logged. -/
def loggingShape : Shape α (Config α) where
  name := "LoggingConfig"
  blank := initial
  fields := [
    ⟨"level", false, fun v c => return { c with logLevel := ← readText v }⟩,
    ⟨"json", false, fun v c => return { c with logJson := ← readBool v }⟩,
    ⟨"file", false,
      fun v c => return { c with logFile := ← readOption (readString "path string") v }⟩]

/-- The members of a configuration. -/
def shape : Shape α (Config α) where
  name := "AppConfig"
  blank := initial
  fields := [
    ⟨"default_fps", true, fun v c => return { c with rate := ← readReal v }⟩,
    ⟨"preview", false, fun v c => do
      let p ← previewShape.readClosed .text v
      return { c with easing := p.easing, precision := p.precision }⟩,
    ⟨"logging", false, fun v c => do
      let l ← loggingShape.readClosed .text v
      return { c with logLevel := l.logLevel, logJson := l.logJson, logFile := l.logFile }⟩]

/-- Refuses a configuration with a frame rate that is none. -/
def validate (c : Config α) : Except (ConfigError α) Unit :=
  if Scalar.isPositive c.rate then .ok () else .error (.badRate c.rate)

/-- Reads a configuration from the content of its file. -/
def parse (content : Option String) : Except (ConfigError α) (Config α) :=
  match content with
  | none => .error .noFile
  | some text =>
    match readDocument (shape.readClosed .text) text with
    | .error cause => .error (.document cause)
    | .ok c => do
      c.validate
      return c

/-- The configuration to use where reading it may fail. -/
def orInitial (c : Except (ConfigError α) (Config α)) : Config α :=
  match c with
  | .ok c => c
  | .error _ => initial

/-- A configuration as a value. -/
def toJson (c : Config α) : Json α :=
  .object [
    ("default_fps", .real c.rate),
    ("preview", .object [
      ("easing", .string c.easing),
      ("round_precision", .nat c.precision.toNat)]),
    ("logging", .object [
      ("level", .string c.logLevel),
      ("json", .bool c.logJson),
      ("file", (c.logFile.map .string).getD .null)])]

/-- A configuration as the text of its file. -/
def text (c : Config Float) : Except (ConfigError Float) String := do
  c.validate
  return Json.pretty c.toJson

end Config

end Retime
