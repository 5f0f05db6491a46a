import Retime.Command.Invocation

/-!
# Reading Arguments

From the words of a command line to an invocation.

Words are taken from left to right, and the first that cannot be taken ends
the reading. So does the first that asks for help or for the version, which
therefore answers only for itself and for what stands in front of it.

A word with a dash in front is a switch and never the value of one, except
for a dash alone; a value that starts with a dash has to be attached. Behind
a double dash there are no switches any more. A switch may be given once in
front of the action and once behind it, and then the second counts.

## Main definitions

* `Stop`: Why there is no invocation.
* `Scan`: What has been read of the words.
* `Scan.take`: Takes one word.
* `Invocation.ofArgs`: Reads all words.
-/

namespace Retime

namespace Command

/-- Why the words make no invocation. -/
inductive Stop where
  /-- They ask for something that cannot be done. -/
  | usage
  /-- They ask for help, maybe with an action. -/
  | help (topic : Option Verb)
  | version
deriving DecidableEq, Repr

/-- What has been read of the words. -/
structure Scan where
  /-- The action, once it has been named. -/
  verb : Option Verb := none
  draft : Draft := {}
  /-- The names of the switches that were given since. -/
  given : List String := []
  /-- A switch whose value is the next word. -/
  awaiting : Option Switch := none
  /-- Whether a double dash has ended the switches. -/
  wordsOnly : Bool := false

namespace Scan

/-- Sets what a switch sets, which it may do only once. -/
def settle (s : Scan) (sw : Switch) (draft : Draft) : Except Stop Scan :=
  if s.given.contains sw.name then
    .error .usage
  else
    .ok { s with draft, given := sw.name :: s.given, awaiting := none }

/-- Takes a switch, with a value if one is attached. -/
def use (s : Scan) (sw : Switch) (attached : Option String) : Except Stop Scan :=
  match sw.effect, attached with
  | .help, none => .error (.help s.verb)
  | .version, none => .error .version
  | .flag set, none => s.settle sw (set s.draft)
  | .value _ _, none => .ok { s with awaiting := some sw }
  | .value _ set, some v =>
    match set v s.draft with
    | some draft => s.settle sw draft
    | none => .error .usage
  | _, some _ => .error .usage

/-- Takes a switch by its name, behind which a value may be attached with an
    equals sign. -/
def long (s : Scan) (cs : List Char) : Except Stop Scan :=
  let name := String.ofList (cs.takeWhile (· != '='))
  match (switches s.verb).find? fun sw => sw.name = name with
  | none => .error .usage
  | some sw => s.use sw ((cs.dropWhile (· != '=')).tail?.map String.ofList)

/-- Takes a row of switches by their letters. The first of them that takes a
    value takes the rest of the row for it, with or without an equals sign. -/
def letters (s : Scan) : List Char → Except Stop Scan
  | [] => .ok s
  | c :: cs =>
    match (switches s.verb).find? fun sw => sw.letter = some c with
    | none => .error .usage
    | some sw =>
      match sw.effect, cs with
      | .value _ _, [] => s.use sw none
      | .value _ _, '=' :: cs => s.use sw (some (String.ofList cs))
      | .value _ _, cs => s.use sw (some (String.ofList cs))
      | _, cs => do letters (← s.use sw none) cs

/-- Takes a word that is no switch: the action first, and then the file. -/
def word (s : Scan) (w : String) : Except Stop Scan :=
  match s.verb, s.draft.file with
  | none, _ =>
    match Verb.ofWord? w with
    | some v => if s.wordsOnly then .error .usage else .ok { s with verb := some v, given := [] }
    | none => .error .usage
  | some _, some _ => .error .usage
  | some _, none =>
    match Switch.path? w with
    | some file => .ok { s with draft.file := some file }
    | none => .error .usage

/-- Takes one word. -/
def take (s : Scan) (w : String) : Except Stop Scan :=
  if s.wordsOnly then
    s.word w
  else
    match s.awaiting, w.toList with
    | some _, '-' :: _ :: _ => .error .usage
    | some sw, _ => s.use sw (some w)
    | none, ['-', '-'] => .ok { s with wordsOnly := true }
    | none, '-' :: '-' :: cs => s.long cs
    | none, '-' :: c :: cs => s.letters (c :: cs)
    | none, _ => s.word w

/-- What words ask for help with. -/
def topic : List String → Stop
  | [] => .help none
  | [w] =>
    match Verb.ofWord? w with
    | some v => .help (some v)
    | none => if w = "help" then .help none else .usage
  | _ => .usage

/-- Takes all words. The word that asks for help can stand in place of an
    action. -/
def takeAll (s : Scan) : List String → Except Stop Scan
  | [] => if s.awaiting.isSome then .error .usage else .ok s
  | w :: ws =>
    if w = "help" ∧ s.verb.isNone ∧ s.awaiting.isNone ∧ ¬s.wordsOnly then
      .error (topic ws)
    else do
      takeAll (← s.take w) ws

end Scan

/-- Reads the words of a command line. -/
def Invocation.ofArgs (args : List String) : Except Stop Invocation := do
  let s ← ({} : Scan).takeAll args
  match s.verb.bind s.draft.invocation? with
  | some i => return i
  | none => throw .usage

end Command

end Retime
