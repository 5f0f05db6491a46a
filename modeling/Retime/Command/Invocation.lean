import Retime.Decimal.Numeral
import Retime.Scalar.Double

/-!
# Invocations of the Command Line

What the program can be asked to do, and the switches that say so.

Every invocation names one action and one markers file. What else may be said
is a table of switches: some that every action understands, some of a single
action, and some that only make sense where no action has been named. A
switch fills in a part of a draft, and a draft is made an invocation when all
has been read.

## Main definitions

* `Action`, `Invocation`: What the program is asked to do.
* `Draft`: What is known of an invocation while it is read.
* `Switch`, `switches`: What may be said with a dash in front.
* `Draft.invocation?`: The invocation of a draft.
-/

namespace Retime

namespace Command

/-- What the program can do with a markers file. -/
inductive Verb where
  | info
  | validate
  | durations
  | sample
  | merge
deriving DecidableEq, Repr

namespace Verb

/-- All that the program can do. -/
def all : List Verb := [info, validate, durations, sample, merge]

/-- The word that an action is called by. -/
def word : Verb → String
  | info => "info"
  | validate => "validate"
  | durations => "durations"
  | sample => "sample"
  | merge => "merge"

/-- The action that a word calls. -/
def ofWord? (w : String) : Option Verb :=
  all.find? fun v => v.word = w

end Verb

/-- An action with all that it needs to know. -/
inductive Action where
  /-- Shows a document. -/
  | info
  /-- Lists the issues of a document. -/
  | validate
  /-- Computes how long all clips play. -/
  | durations (rate : Option Float) (breakdown write : Bool)
  /-- Looks the speed of a pair up. Pairs count from one. -/
  | sample (number : Nat) (time : Float) (easing : Option String) (rounding : Option Float)
  /-- Expands a merge list. -/
  | merge (list : Option String)

/-- What the program is asked to do. -/
structure Invocation where
  /-- The file of the configuration, if one is named. -/
  config : Option String
  verbose : Bool
  /-- The file of the document. -/
  file : String
  action : Action

/-- What is known of an invocation while it is read. -/
structure Draft where
  config : Option String := none
  verbose : Bool := false
  file : Option String := none
  rate : Option Float := none
  breakdown : Bool := false
  write : Bool := false
  number : Option Nat := none
  time : Option Float := none
  easing : Option String := none
  rounding : Option Float := none
  list : Option String := none

namespace Draft

/-- The action of a draft, if nothing is missing. -/
def action? (d : Draft) : Verb → Option Action
  | .info => some .info
  | .validate => some .validate
  | .durations => some (.durations d.rate d.breakdown d.write)
  | .sample => do return .sample (← d.number) (← d.time) d.easing d.rounding
  | .merge => some (.merge d.list)

/-- The invocation of a draft, if nothing is missing. -/
def invocation? (d : Draft) (v : Verb) : Option Invocation := do
  return ⟨d.config, d.verbose, ← d.file, ← d.action? v⟩

end Draft

/-- What a switch does. -/
inductive Effect where
  /-- It stands alone. -/
  | flag (set : Draft → Draft)
  /-- It takes a value, which may be refused. The symbol stands for the value
      in the help. -/
  | value (symbol : String) (set : String → Draft → Option Draft)
  /-- It asks for help, and nothing else is done. -/
  | help
  /-- It asks for the version, and nothing else is done. -/
  | version

/-- What may be said with a dash in front. -/
structure Switch where
  /-- The name behind two dashes. -/
  name : String
  /-- The letter behind one dash. -/
  letter : Option Char
  about : String
  effect : Effect

namespace Switch

/-- A path, which may not be empty. -/
def path? (s : String) : Option String :=
  if s.isEmpty then none else some s

/-- A number that may have a fraction, or be none. -/
def real? (s : String) : Option Float :=
  match Numeral.read s.toList with
  | .ok n => some n.toScalar
  | .error _ => none

/-- A whole number of 64 bits that is not negative. -/
def natural? (s : String) : Option Nat :=
  Text.readNat? (UInt64.size - 1) s.toList

end Switch

/-- The switches that are understood everywhere. -/
def commonSwitches : List Switch := [
  ⟨"verbose", some 'v', "Enable verbose logging",
    .flag fun d => { d with verbose := true }⟩,
  ⟨"config", none, "Config file to use instead of the standard location",
    .value "CONFIG" fun s d => do return { d with config := ← Switch.path? s }⟩,
  ⟨"help", some 'h', "Print help", .help⟩]

/-- The switches of an action alone. -/
def Verb.ownSwitches : Verb → List Switch
  | .info | .validate => []
  | .durations => [
    ⟨"fps", none, "Video frame rate (defaults to the configured frame rate)",
      .value "FPS" fun s d => do return { d with rate := ← Switch.real? s }⟩,
    ⟨"breakdown", none, "Print the per-segment breakdown",
      .flag fun d => { d with breakdown := true }⟩,
    ⟨"write", none, "Store the computed durations back into the file",
      .flag fun d => { d with write := true }⟩]
  | .sample => [
    ⟨"pair", some 'p', "Marker pair number (1-based)",
      .value "PAIR" fun s d => do return { d with number := ← Switch.natural? s }⟩,
    ⟨"time", some 't', "Source time in seconds",
      .value "TIME" fun s d => do return { d with time := ← Switch.real? s }⟩,
    ⟨"easing", none, "Easing between speed points: linear or cubicInOut",
      .value "EASING" fun s d => some { d with easing := some s }⟩,
    ⟨"round", none, "Round the sampled speed to this multiple (0 disables)",
      .value "ROUND" fun s d => do return { d with rounding := ← Switch.real? s }⟩]
  | .merge => [
    ⟨"list", some 'l', "Merge list to use instead of the one stored in the file",
      .value "LIST" fun s d => some { d with list := some s }⟩]

/-- The switches that are understood where an action has been named, or before
    one has. -/
def switches : Option Verb → List Switch
  | some v => v.ownSwitches ++ commonSwitches
  | none => commonSwitches ++ [⟨"version", some 'V', "Print version", .version⟩]

end Command

end Retime
