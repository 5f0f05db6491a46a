import Retime.Document.Pair
import Retime.Json.Writer
import Retime.Scalar.Double

/-!
# Markers Documents

The document of a session: its settings and all of its pairs.

The settings stand at the top of the document, beside the pairs. Pairs are
numbered when they are written, but a number is only a position and is not
read again. Old documents have the pairs under another name, which still
counts where the new one is absent.

Saving stamps the document with the version of the format and with the time.

## Main definitions

* `Markers`: The document of a session.
* `Markers.read`, `Markers.toJson`: Reading and writing it.
* `Markers.parse`, `Markers.text`: The same for whole texts.
* `Markers.stamped`: The document as it is saved.
-/

namespace Retime

/-- The version that saved documents are stamped with. -/
def formatVersion : String := "0.1.0"

/-- The document of a session. -/
structure Markers (α : Type) where
  version : Option String
  /-- The time of the last save, as it was written. -/
  modified : Option String
  settings : Settings α
  pairs : List (Pair α)

/-- What is read of a document before it is known to list pairs. -/
structure MarkersDraft (α : Type) where
  version : Option String := none
  modified : Option String := none
  pairs : Option (List (Pair α)) := none
  oldPairs : Option (List (Pair α)) := none

namespace Markers

variable {α : Type} [Scalar α]

/-- A document of no pairs that has never been saved. -/
def ofSettings (settings : Settings α) : Markers α :=
  ⟨none, none, settings, []⟩

/-- The members of a document that are not settings. -/
def shape : Shape α (MarkersDraft α) where
  name := "RawMarkersFile"
  blank := {}
  fields := [
    ⟨"version", false, fun v d => return { d with version := ← readOption readText v }⟩,
    ⟨"modified", false, fun v d => return { d with modified := ← readOption readText v }⟩,
    ⟨"markerPairs", false,
      fun v d => return { d with pairs := ← readOption (readList (Pair.read .text)) v }⟩,
    ⟨"markers", false,
      fun v d => return { d with oldPairs := ← readOption (readList (Pair.read .text)) v }⟩]

/-- Reads a document. -/
def read (v : Source) : Except (DocumentError α) (Markers α) := do
  let (draft, rest) ← shape.readOpen v
  let settings ← Settings.ofMembers rest
  match draft.pairs.or draft.oldPairs with
  | some pairs => return ⟨draft.version, draft.modified, settings, pairs⟩
  | none => throw (.marker .noPairs)

/-- A pair with its number in front, counted from one. -/
def numbered (p : Pair α) (index : Nat) : Json α :=
  .object (("number", .nat (index + 1)) :: p.members)

/-- A document as a value. -/
def toJson (d : Markers α) : Json α :=
  .object (d.settings.members ++
    Json.member? "version" (d.version.map .string) ++
    Json.member? "modified" (d.modified.map .string) ++
    [("markerPairs", .array (d.pairs.zipIdx.map fun (p, i) => numbered p i))])

/-- The name of the file that a document is kept in unless chosen. -/
def fileName (d : Markers α) : String :=
  ((d.settings.titleSuffix.or d.settings.videoId).getD "markers") ++ ".json"

/-- The document as it is saved at a time. -/
def stamped (d : Markers α) (time : String) : Markers α :=
  { d with version := some formatVersion, modified := some time }

/-- Reads a whole text. -/
def parse (text : String) : Except (DocumentError α) (Markers α) :=
  readDocument read text

/-- A document as a text. -/
def text (d : Markers Float) : String :=
  Json.pretty d.toJson

end Markers

end Retime
