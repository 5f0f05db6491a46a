import Retime.Json.Spelling

/-!
# The Structure of a JSON Text

What a JSON text says before anything in it is evaluated.

A document is read in two steps. The first finds its structure. The second
takes the values out of it, and only those that somebody asks for. The two
are apart because a document may hold what nobody asks for: an unknown key
with a number that no scalar can hold, with an escape that stands for no
character, or nested without end, is passed over, while the same thing under
a known key is an error. The structure therefore keeps numbers as they are
spelled, and marks the other two.

A text that is not JSON still has a structure up to where it breaks off, with
the break as its last part. So whoever reads it from left to right finds the
faults of a document in the order in which they stand in it, whatever their
kind. How the text fails at the break may differ with what is looked for
there, so a break has a cause for each.

## Main definitions

* `TextError`: How a text fails to be JSON.
* `Break`: A place where a text fails.
* `Source`: The structure of a text.
* `Source.flaw?`: The break in a structure.
* `Source.value`: The value of a structure, all of it.
* `Source.settled`: The structure of what remains of a value once it is known.
-/

namespace Retime

/-- How a text fails to be JSON. -/
inductive TextError where
  /-- A part cannot stand where it stands, or has no value. -/
  | malformed
  /-- The text ends too early. -/
  | unfinished
deriving DecidableEq, Repr

/-- A place where a text fails, with a cause for everyone who may look at it. -/
structure Break where
  /-- For whoever takes the value that stands there. -/
  taken : TextError
  /-- For whoever passes over it. -/
  passed : TextError
  /-- For whoever expects a choice there. -/
  chosen : TextError
  /-- For whoever expects that nothing more stands there. -/
  ended : TextError

namespace Break

/-- A place where no value starts, though one should. -/
def ofValue (cause : TextError) : Break :=
  ⟨cause, cause, cause, .malformed⟩

/-- A word that breaks off. No choice starts like it. -/
def ofWord (cause : TextError) : Break :=
  ⟨cause, cause, .malformed, .malformed⟩

/-- A number that breaks off. Whoever passes over it only sees that a digit is
    not there. -/
def ofNumber (cause : TextError) : Break :=
  ⟨cause, .malformed, .malformed, .malformed⟩

/-- A string that breaks off. Whoever takes it may have found an earlier fault
    in it. -/
def ofString (taken passed : TextError) : Break :=
  ⟨taken, passed, taken, .malformed⟩

/-- A place where a container neither goes on nor ends. -/
def ofEnd (cause : TextError) : Break :=
  ⟨cause, cause, cause, cause⟩

end Break

/-- The structure of a JSON text. -/
inductive Source where
  | null
  | bool (b : Bool)
  | number (spelling : Spelling)
  | string (s : String)
  | array (items : List Source)
  /-- An object, whose keys may fail to be readable one by one. -/
  | object (members : List (Except TextError String × Source))
  /-- What is passed over but has no value: a string with half of a surrogate
      pair, or a container nested deeper than is looked at. It may hold the
      break of the text. -/
  | unreadable (flaw : Option TextError)
  /-- The place where the text breaks off. -/
  | broken (place : Break)

namespace Source

instance : Inhabited Source := ⟨null⟩

/-- A member of an object, with its key. -/
abbrev Member := Except TextError String × Source

mutual

/-- How the text breaks off inside a structure, if it does. -/
def flaw? : Source → Option TextError
  | .broken place => some place.passed
  | .unreadable flaw => flaw
  | .array items => flawOfItems? items
  | .object members => flawOfMembers? members
  | .null | .bool _ | .number _ | .string _ => none

/-- How the text breaks off among items. -/
def flawOfItems? : List Source → Option TextError
  | [] => none
  | v :: vs => (flaw? v).or (flawOfItems? vs)

/-- How the text breaks off among members. -/
def flawOfMembers? : List Member → Option TextError
  | [] => none
  | (_, v) :: ms => (flaw? v).or (flawOfMembers? ms)

end

variable {α : Type} [Scalar α]

mutual

/-- The value of a structure, if every part of it has one. -/
def value : Source → Except TextError (Json α)
  | .null => .ok .null
  | .bool b => .ok (.bool b)
  | .number s =>
    match (s.number? : Option (Number α)) with
    | some n => .ok (.number n)
    | none => .error .malformed
  | .string s => .ok (.string s)
  | .array items => do return .array (← values items)
  | .object members => do return .object (Json.mapOf (← memberValues members))
  | .unreadable _ => .error .malformed
  | .broken place => .error place.taken

/-- The values of items. -/
def values : List Source → Except TextError (List (Json α))
  | [] => .ok []
  | v :: vs => do
    let x ← value v
    let xs ← values vs
    return x :: xs

/-- The values of members. -/
def memberValues : List Member → Except TextError (List (String × Json α))
  | [] => .ok []
  | (k, v) :: ms => do
    let key ← k
    let x ← value v
    let xs ← memberValues ms
    return (key, x) :: xs

end

mutual

/-- The structure of what remains of a value once it is known: its members are
    ordered by their keys, and of two with one key the later counts. -/
def settled : Source → Source
  | .array items => .array (settledItems items)
  | .object members =>
    .object ((Json.mapOf (settledMembers members)).map fun (key, v) => (.ok key, v))
  | v => v

/-- What remains of items. -/
def settledItems : List Source → List Source
  | [] => []
  | v :: vs => settled v :: settledItems vs

/-- What remains of members. -/
def settledMembers : List Member → List (String × Source)
  | [] => []
  | (.ok key, v) :: ms => (key, settled v) :: settledMembers ms
  | (.error _, _) :: ms => settledMembers ms

end

end Source

end Retime
