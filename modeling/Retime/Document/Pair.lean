import Retime.Document.Options
import Retime.Pair.Record
import Retime.Text.Blank

/-!
# Pairs in Documents

How pairs and their speed maps are read and written.

A document is read member by member into a record, and only a whole record is
made a pair. So a document that does not have the shape of a pair is told
apart from one whose pair makes no sense.

The speed of a pair may be given as a text, which old documents do.

## Main definitions

* `SpeedMap.read`, `SpeedMap.toJson`: Reading and writing a speed map.
* `Pair.read`, `Pair.toJson`: Reading and writing a pair.
-/

namespace Retime

variable {α : Type} [Scalar α]

namespace SpeedPoint

/-- The members of a point. -/
def shape : Shape α (SpeedPoint α) where
  name := "SpeedPoint"
  blank := ⟨0.0, 0.0⟩
  fields := [
    ⟨"x", true, fun v p => return { p with time := ← readReal v }⟩,
    ⟨"y", true, fun v p => return { p with speed := ← readReal v }⟩]

/-- Reads a point. -/
def read (medium : Medium) (v : Source) : Except (DocumentError α) (SpeedPoint α) :=
  shape.readClosed medium v

/-- A point as a value. -/
def toJson (p : SpeedPoint α) : Json α :=
  .object [("x", .real p.time), ("y", .real p.speed)]

end SpeedPoint

namespace SpeedMap

/-- Reads a speed map. -/
def read (medium : Medium) (v : Source) : Except (DocumentError α) (SpeedMap α) := do
  marking (ofList (← readList (SpeedPoint.read medium) v))

/-- A speed map as a value. -/
def toJson (m : SpeedMap α) : Json α :=
  .array (m.points.map SpeedPoint.toJson)

end SpeedMap

namespace LoopRange

/-- The members of a loop range. -/
def shape : Shape α (LoopRange α) where
  name := "SpeedMapLoop"
  blank := {}
  fields := [
    ⟨"start", false, fun v r => return { r with start := ← readOption readReal v }⟩,
    ⟨"end", false, fun v r => return { r with stop := ← readOption readReal v }⟩,
    ⟨"enabled", false, fun v r => return { r with enabled := ← readBool v }⟩]

/-- Reads a loop range. -/
def read (medium : Medium) (v : Source) : Except (DocumentError α) (LoopRange α) :=
  shape.readClosed medium v

/-- A loop range as a value. -/
def toJson (r : LoopRange α) : Json α :=
  .object (Json.member? "start" (r.start.map .real) ++
    Json.member? "end" (r.stop.map .real) ++ [("enabled", .bool r.enabled)])

end LoopRange

/-- Reads a speed that may be given as a text. -/
def readLenientSpeed (v : Source) : Except (DocumentError α) α := do
  let value : Json α ← readAny v
  match value with
  | .number n => return n.toScalar
  | .string s =>
    match Numeral.read (Text.trim s.toList) with
    | .ok n => return n.toScalar
    | .error cause => throw (.numeral cause)
  | _ => throw .notNumeral

namespace Pair

/-- The members of a stored pair. -/
def shape (medium : Medium) : Shape α (PairRecord α) where
  name := "MarkerPairRecord"
  blank :=
    { start := 0.0, stop := 0.0, crop := .full, speed := 1.0, overrides := .empty
      points := none, loop := {}, playTime := none }
  fields := [
    ⟨"start", true, fun v r => return { r with start := ← readReal v }⟩,
    ⟨"end", true, fun v r => return { r with stop := ← readReal v }⟩,
    ⟨"crop", false, fun v r => return { r with crop := ← Crop.read v }⟩,
    ⟨"speed", false, fun v r => return { r with speed := ← readLenientSpeed v }⟩,
    ⟨"overrides", false, fun v r => return { r with overrides := ← Options.read medium v }⟩,
    ⟨"speedMap", false,
      fun v r => return { r with points := ← readOption (readList (SpeedPoint.read medium)) v }⟩,
    ⟨"speedMapLoop", false, fun v r => return { r with loop := ← LoopRange.read medium v }⟩,
    ⟨"outputDuration", false,
      fun v r => return { r with playTime := ← readOption readReal v }⟩]

/-- Reads a pair. -/
def read (medium : Medium) (v : Source) : Except (DocumentError α) (Pair α) := do
  marking (ofRecord (← (shape medium).readClosed medium v))

/-- Reads a pair out of a value. -/
def ofValue (v : Source) : Except (DocumentError α) (Pair α) :=
  read .value v.settled

/-- The members that a pair is written as. -/
def members (p : Pair α) : List (String × Json α) :=
  let r := p.toRecord
  [("start", .real r.start),
    ("end", .real r.stop),
    ("crop", .string r.crop.text),
    ("speed", .real r.speed),
    ("overrides", r.overrides.toJson)] ++
  Json.member? "speedMap" (r.points.map fun ps => .array (ps.map SpeedPoint.toJson)) ++
  [("speedMapLoop", r.loop.toJson)] ++
  Json.member? "outputDuration" (r.playTime.map .real)

/-- A pair as a value. -/
def toJson (p : Pair α) : Json α :=
  .object p.members

end Pair

end Retime
