import Retime.Store.Basic

/-!
# Issues of a Document

What can still be wrong with a document that could be read.

Reading refuses a pair that makes no sense by itself. It cannot refuse what
only stops to fit when something else is edited: a crop when the resolution
changes, a loop when a marker is moved, a stored play time when the video
turns out to have another frame rate, a merge list when a pair is deleted.
Each of these is an issue, which says where it is and leaves the document
alone.

Issues are listed by what they concern: first all that a pair shows without a
frame rate, pair by pair, then the play times, then the merge list.

## Main definitions

* `Issue`: Something that does not fit.
* `Markers.issues`: All issues of a document at a frame rate.
-/

namespace Retime

/-- Something in a document that does not fit. Pairs are told by number. -/
inductive Issue (α : Type) where
  /-- The speed map of a pair is none. -/
  | badMap (number : Nat) (cause : MarkerError α)
  /-- A crop reaches over the edge of the picture. -/
  | cropOutside (number : Nat) (crop : Crop) (resolution : Resolution)
  /-- A loop has no length, or reaches over a marker. -/
  | loopOutside (number : Nat) (start stop : α)
  /-- A play time is not the one that a frame rate asks for. -/
  | staleTime (number : Nat) (stored computed rate : α)
  /-- A merge list names a pair that there is not. -/
  | missingPair (group : String) (number : UInt64)
deriving Repr

namespace Issue

/-- The wording of an issue. -/
def message : Issue Float → String
  | badMap number cause => "pair " ++ Text.natText number ++ ": " ++ cause.message
  | cropOutside number crop resolution =>
    "pair " ++ Text.natText number ++ ": crop " ++ crop.text ++ " exceeds the " ++
      resolution.text ++ " crop resolution"
  | loopOutside number start stop =>
    "pair " ++ Text.natText number ++ ": speed map loop " ++ numberText start ++ "-" ++
      numberText stop ++ " is outside the pair"
  | staleTime number stored computed rate =>
    "pair " ++ Text.natText number ++ ": stored output duration " ++ numberText stored ++
      " differs from " ++ numberText computed ++ " at " ++ numberText rate ++ "fps"
  | missingPair group number =>
    "merge group [" ++ group ++ "] references missing pair " ++ Text.natText number.toNat

end Issue

variable {α : Type} [Scalar α]

namespace Pair

/-- The issue of a speed map that is none. -/
def mapIssue? (number : Nat) (p : Pair α) : Option (Issue α) :=
  match p.map.validate with
  | .ok _ => none
  | .error cause => some (.badMap number cause)

/-- The issue of a crop that does not lie inside a resolution. -/
def cropIssue? (number : Nat) (r : Resolution) (p : Pair α) : Option (Issue α) :=
  if p.crop.inside r = p.crop then none else some (.cropOutside number p.crop r)

/-- The issue of a loop with two ends that are not in their order within the
    pair. -/
def loopIssue? (number : Nat) (p : Pair α) : Option (Issue α) :=
  match p.loop.start, p.loop.stop with
  | some start, some stop =>
    if stop ≤ start ∨ start < p.start ∨ p.stop < stop then
      some (.loopOutside number start stop)
    else none
  | _, _ => none

/-- The issues that a pair shows without a frame rate. -/
def issues (r : Resolution) (p : Pair α) (number : Nat) : List (Issue α) :=
  [p.mapIssue? number, p.cropIssue? number r, p.loopIssue? number].filterMap id

/-- How far a stored play time may be off the computed one. -/
def timeTolerance : α := 1e-9

/-- The issue of a stored play time that is off the computed one. -/
def timeIssue? (rate : α) (stored computed : Pair α) (number : Nat) : Option (Issue α) :=
  if timeTolerance < Scalar.abs (stored.playTime - computed.playTime) then
    some (.staleTime number stored.playTime computed.playTime rate)
  else none

end Pair

/-- The issue of an entry of a group that names more pairs than there are. -/
def MergeEntry.issue? (group : String) (count : Nat) (e : MergeEntry) : Option (Issue α) :=
  if count < e.highest.toNat then some (.missingPair group e.highest) else none

/-- The issues of a merge group. -/
def MergeGroup.issues (count : Nat) (g : MergeGroup) : List (Issue α) :=
  g.entries.filterMap (MergeEntry.issue? g.source count)

namespace Markers

/-- All issues of a document at a frame rate. -/
def issues (d : Markers α) (rate : α) : Except (EditError α) (List (Issue α)) := do
  let store ← Store.ofPairs d.pairs rate
  let numbers := List.range' 1 d.pairs.length
  let ofPairs := (d.pairs.zipWith (Pair.issues d.settings.resolution) numbers).flatten
  let ofTimes := ((d.pairs.zip store.pairs).zipWith
    (fun (stored, computed) number => Pair.timeIssue? rate stored computed number)
    numbers).filterMap id
  let ofMerges := (MergeList.parse d.settings.mergeList).flatMap
    (MergeGroup.issues d.pairs.length)
  return ofPairs ++ ofTimes ++ ofMerges

end Markers

end Retime
