import Retime.Error
import Retime.Json.Reader
import Retime.Text.Quoted

/-!
# Reading by Shape

From the structure of a JSON text to the values of the library.

What is expected at each place of a document is a shape, and a document that
has another is refused with the one thing that was found where another was
expected. Members are looked at in the order of the document, so of several
faults the first is told.

A record is read from an object, where a shape lists what members it may have
and what each sets. A member that is not listed is passed over. Two things
depend on whether a record is closed or open. A closed one may also be written
as an array of its members in the order of the shape. An open one keeps the
members that it does not know; they are evaluated at once, and then taken by
whoever comes after it.

## Main definitions

* `Found`: What is found in place of what was expected.
* `DocumentError`: Why a document is refused.
* `Medium`: What a document is read out of.
* `Field`, `Shape`: The members of a record.
* `Shape.readClosed`, `Shape.readOpen`: Reading a record.
* `readReal`, `readText`, …: Reading a simple value.
* `readDocument`: Reading a whole text by a shape.
-/

namespace Retime

/-- What is found where something else was expected. -/
inductive Found (α : Type) where
  | null
  | bool (b : Bool)
  | whole (n : Int)
  | real (x : α)
  | text (s : String)
  | sequence
  | map
deriving Repr

/-- Why a document is refused. -/
inductive DocumentError (α : Type) where
  /-- It is not JSON, or a part that is asked for has no value. -/
  | text (cause : TextError)
  | wrongType (found : Found α) (expected : String)
  | outOfRange (n : Int) (expected : String)
  /-- An array has too few items for a record, or too many. -/
  | wrongLength (count : Nat) (expected : String)
  /-- A map that stands for a choice has not just one key. -/
  | notSingle
  | missing (name : String)
  | duplicate (name : String)
  | unknownChoice (name : String) (choices : List String)
  /-- Neither a number nor a text that may be one. -/
  | notNumeral
  | numeral (cause : NumeralError)
  | marker (cause : MarkerError α)
deriving Repr

/-- The wording of what was found. A number that is not whole is shown as
    documents show it. -/
def Found.message : Found Float → String
  | .null => "null"
  | .bool b => "boolean \x60" ++ (if b then "true" else "false") ++ "\x60"
  | .whole n => "integer \x60" ++ Text.intText n ++ "\x60"
  | .real x => "floating point \x60" ++ documentNumberText x ++ "\x60"
  | .text s => "string " ++ Text.quoted s
  | .sequence => "sequence"
  | .map => "map"

/-- Names in a row, each marked. -/
def choiceText (choices : List String) : String :=
  ", ".intercalate (choices.map fun c => "\x60" ++ c ++ "\x60")

/-- The wording of a refused document. -/
def DocumentError.message : DocumentError Float → String
  | .text .malformed => "malformed text"
  | .text .unfinished => "unfinished text"
  | .wrongType found expected => "invalid type: " ++ found.message ++ ", expected " ++ expected
  | .outOfRange n expected =>
    "invalid value: integer \x60" ++ Text.intText n ++ "\x60, expected " ++ expected
  | .wrongLength n expected =>
    "invalid length " ++ Text.natText n ++ ", expected " ++ expected
  | .notSingle => "invalid value: map, expected map with a single key"
  | .missing name => "missing field \x60" ++ name ++ "\x60"
  | .duplicate name => "duplicate field \x60" ++ name ++ "\x60"
  | .unknownChoice name choices =>
    "unknown variant \x60" ++ name ++ "\x60, expected one of " ++ choiceText choices
  | .notNumeral => "data did not match any variant of untagged enum NumberOrString"
  | .numeral cause => cause.message
  | .marker cause => cause.message

section Values

variable {α : Type} [Scalar α]

/-- The refusal of a value in whose place something else was expected. A value
    that cannot even be evaluated is refused for that. What a container holds
    is of no importance then. -/
def wrongType {β : Type} (v : Source) (expected : String) : Except (DocumentError α) β :=
  .error <|
    match v with
    | .null => .wrongType .null expected
    | .bool b => .wrongType (.bool b) expected
    | .number s =>
      match (s.number? : Option (Number α)) with
      | some (.whole n) => .wrongType (.whole n) expected
      | some (.real x) => .wrongType (.real x) expected
      | none => .text .malformed
    | .string s => .wrongType (.text s) expected
    | .array _ => .wrongType .sequence expected
    | .object _ => .wrongType .map expected
    | .unreadable _ => .text .malformed
    | .broken place => .text place.taken

/-- Reads a number as a scalar. -/
def readReal (v : Source) : Except (DocumentError α) α :=
  let number? : Option (Number α) :=
    match v with
    | .number s => s.number?
    | _ => none
  match number? with
  | some n => .ok n.toScalar
  | none => wrongType v "f64"

/-- Reads a whole number between zero and a limit. -/
def readNat (limit : Nat) (expected : String) (v : Source) : Except (DocumentError α) Nat :=
  match v with
  | .number s =>
    match (s.number? : Option (Number α)) with
    | some (.whole n) =>
      if 0 ≤ n ∧ n ≤ limit then .ok n.toNat else .error (.outOfRange n expected)
    | _ => wrongType v expected
  | v => wrongType v expected

/-- Reads a whole number of eight bits. -/
def readByte (v : Source) : Except (DocumentError α) UInt8 :=
  (readNat 255 "u8" v).map .ofNat

/-- Reads a whole number of 32 bits. -/
def readWord (v : Source) : Except (DocumentError α) UInt32 :=
  (readNat (UInt32.size - 1) "u32" v).map .ofNat

/-- Reads a truth value. -/
def readBool (v : Source) : Except (DocumentError α) Bool :=
  match v with
  | .bool b => .ok b
  | v => wrongType v "a boolean"

/-- Reads a string. -/
def readString (expected : String) (v : Source) : Except (DocumentError α) String :=
  match v with
  | .string s => .ok s
  | v => wrongType v expected

/-- Reads a text. -/
def readText (v : Source) : Except (DocumentError α) String :=
  readString "a string" v

/-- Reads a value that may be null. -/
def readOption {β : Type} (read : Source → Except (DocumentError α) β) (v : Source) :
    Except (DocumentError α) (Option β) :=
  match v with
  | .null => .ok none
  | v => (read v).map some

/-- Reads the items of an array. -/
def readList {β : Type} (read : Source → Except (DocumentError α) β) (v : Source) :
    Except (DocumentError α) (List β) :=
  match v with
  | .array items => items.mapM read
  | v => wrongType v "a sequence"

/-- Refuses a part of a text that has no value. -/
def evaluated {β : Type} (r : Except TextError β) : Except (DocumentError α) β :=
  match r with
  | .ok b => .ok b
  | .error cause => .error (.text cause)

/-- Evaluates a value that is kept as it is. -/
def readAny (v : Source) : Except (DocumentError α) (Json α) :=
  evaluated v.value

/-- Passes over a value that nobody asks for. -/
def passOver (v : Source) : Except (DocumentError α) Unit :=
  match v.flaw? with
  | none => .ok ()
  | some cause => .error (.text cause)

/-- Refuses marker data for its own reasons. -/
def marking {β : Type} (r : Except (MarkerError α) β) : Except (DocumentError α) β :=
  match r with
  | .ok b => .ok b
  | .error cause => .error (.marker cause)

end Values

/-- What a document is read out of. -/
inductive Medium where
  /-- A text, which is looked at from left to right. -/
  | text
  /-- A value, which is known as a whole before any of it is looked at. -/
  | value
deriving DecidableEq, Repr

/-- A member that a record may have. -/
structure Field (α δ : Type) where
  name : String
  /-- Whether the record is refused without it. -/
  required : Bool
  /-- What the member sets. -/
  set : Source → δ → Except (DocumentError α) δ

/-- What a record looks like. -/
structure Shape (α δ : Type) where
  /-- The name of the record in messages. -/
  name : String
  /-- The record before any member has been read. -/
  blank : δ
  fields : List (Field α δ)

namespace Shape

variable {α δ : Type}

/-- What is expected where a record is. -/
def expected (shape : Shape α δ) : String :=
  "struct " ++ shape.name

/-- Reads the members that a shape lists, lets `other` look at the rest of
    them, and returns those as well. The names in `seen` have been read
    already. -/
def takeMembers (shape : Shape α δ) (other : Source → Except (DocumentError α) Unit) :
    (seen : List String) → δ → List Source.Member →
    Except (DocumentError α) (List String × δ × List Source.Member)
  | seen, d, [] => .ok (seen, d, [])
  | seen, d, (key, v) :: ms => do
    let name ← evaluated key
    match shape.fields.find? fun f => f.name = name with
    | none => do
      other v
      let (seen, d, rest) ← shape.takeMembers other seen d ms
      return (seen, d, (key, v) :: rest)
    | some f =>
      -- The second member of a name is refused before its value is looked at.
      if seen.contains name then
        .error (.duplicate name)
      else do
        shape.takeMembers other (name :: seen) (← f.set v d) ms

/-- Reads the members of a record. The first that is required and is not there
    is told. -/
def readMembers (shape : Shape α δ) (other : Source → Except (DocumentError α) Unit)
    (ms : List Source.Member) : Except (DocumentError α) (δ × List Source.Member) := do
  let (seen, d, rest) ← shape.takeMembers other [] shape.blank ms
  match shape.fields.find? fun f => f.required && !seen.contains f.name with
  | some f => throw (.missing f.name)
  | none => return (d, rest)

/-- The refusal of items behind the last that a record may have. -/
def surplus : Medium → (count : Nat) → List Source → DocumentError α
  | .value, count, vs => .wrongLength (count + vs.length) "fewer elements in array"
  | .text, _, .broken place :: _ => .text place.ended
  | .text, _, _ => .text .malformed

/-- Reads the items of an array as the members that a shape lists, in its
    order. Items may be absent at the end if none of them is required. -/
def takeItems (shape : Shape α δ) (medium : Medium) :
    List (Field α δ) → (count : Nat) → δ → List Source → Except (DocumentError α) δ
  | [], _, d, [] => .ok d
  | [], count, _, v :: vs => .error (surplus medium count (v :: vs))
  | f :: fs, count, d, [] =>
    if f.required then
      .error (.wrongLength count
        (shape.expected ++ " with " ++ Text.natText shape.fields.length ++ " elements"))
    else
      shape.takeItems medium fs count d []
  | f :: fs, count, d, v :: vs => do
    shape.takeItems medium fs (count + 1) (← f.set v d) vs

variable [Scalar α]

/-- Reads a record that knows all of its members. -/
def readClosed (shape : Shape α δ) (medium : Medium) (v : Source) :
    Except (DocumentError α) δ :=
  match v with
  | .object ms => do
    let (d, _) ← shape.readMembers passOver ms
    return d
  | .array items => shape.takeItems medium shape.fields 0 shape.blank items
  | v => wrongType v shape.expected

/-- Reads a record that keeps the members it does not know. -/
def readOpen (shape : Shape α δ) (v : Source) :
    Except (DocumentError α) (δ × List Source.Member) :=
  match v with
  | .object ms => shape.readMembers (fun v => do let _ : Json α ← readAny v) ms
  | v => wrongType v shape.expected

end Shape

/-- The map of members that nobody knows. -/
def readRest {α : Type} [Scalar α] (ms : List Source.Member) :
    Except (DocumentError α) (List (String × Json α)) :=
  (evaluated (Source.memberValues ms)).map Json.mapOf

/-- Reads a whole text by a shape. A document that is refused where it stands
    is refused for that, though it may break off behind. -/
def readDocument {α β : Type} (read : Source → Except (DocumentError α) β) (text : String) :
    Except (DocumentError α) β := do
  let (v, flaw) := Source.parse text
  let b ← read v
  match flaw with
  | none => return b
  | some cause => throw (.text cause)

end Retime
