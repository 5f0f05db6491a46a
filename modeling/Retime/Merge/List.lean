import Retime.Frame.ClockText
import Retime.Pair.Basic
import Retime.Text.Blank

/-!
# Merge Lists

Which pairs are joined to one longer clip, and in which order.

A list has groups, one for each merged clip, with semicolons between them. A
group has entries with commas between them, and an entry is the number of a
pair or a range of numbers, which may run downwards. Numbers count from one.

Lists are typed by hand and are read with indulgence. Of a number only the
leading digits count, and an entry without any is passed over, while its
neighbours stand. A range may be as wide as numbers go; one that is wider than
anybody could mean is not expanded, though it still counts in estimates, where
only pairs that exist matter.

## Main definitions

* `MergeEntry`: A number or a range of numbers.
* `MergeEntry.numbers`: The numbers of an entry, in their order.
* `MergeGroup`: The entries of one merged clip.
* `MergeGroup.numbers`, `MergeGroup.naiveTime`: What a group joins, and for how
  long about.
* `MergeList.parse`: Reads a list.
-/

namespace Retime

/-- The numbers of a range that is expanded, at most. -/
def maxExpanded : UInt64 := 10000

/-- An entry of a group, as it is written. -/
inductive MergeEntry where
  | single (n : UInt64)
  /-- All numbers from the one to the other, downwards if that is the way. -/
  | range (source target : UInt64)
deriving DecidableEq, Repr

namespace MergeEntry

/-- The lowest number of an entry. -/
def lowest : MergeEntry → UInt64
  | single n => n
  | range source target => min source target

/-- The highest number of an entry. -/
def highest : MergeEntry → UInt64
  | single n => n
  | range source target => max source target

/-- Whether the numbers run downwards. -/
def isDescending : MergeEntry → Bool
  | single _ => false
  | range source target => decide (target < source)

/-- How many numbers an entry has. The widest range of all has one more than
    can be counted, and is counted as one less. -/
def width (e : MergeEntry) : UInt64 :=
  let distance := e.highest - e.lowest
  if distance = UInt64.ofNat (UInt64.size - 1) then distance else distance + 1

/-- The numbers of an entry, in their order. -/
def numbers (e : MergeEntry) : List UInt64 :=
  (List.range ((e.highest - e.lowest).toNat + 1)).map fun i =>
    if e.isDescending then e.highest - .ofNat i else e.lowest + .ofNat i

/-- The numbers of an entry that one of `count` pairs has, from the lowest
    on. -/
def existing (e : MergeEntry) (count : Nat) : List Nat :=
  let low := max e.lowest.toNat 1
  (List.range (min e.highest.toNat count + 1 - low)).map (low + ·)

/-- Reads the number at the start of a text. -/
def leadingNumber? (cs : List Char) : Option UInt64 :=
  (Text.readDigits? (UInt64.size - 1) ((Text.trimStart cs).takeWhile Char.isDigit)).map .ofNat

/-- Reads an entry. Of the pieces around hyphens the first two count. -/
def parse? (cs : List Char) : Option MergeEntry :=
  match Text.pieces '-' cs with
  | source :: target :: _ => do
    let source ← leadingNumber? source
    let target ← leadingNumber? target
    return range source target
  | _ => (leadingNumber? cs).map single

end MergeEntry

/-- The entries of one merged clip. -/
structure MergeGroup where
  /-- The group as it is written, without blanks at its ends. -/
  source : String
  entries : List MergeEntry
deriving DecidableEq, Repr

namespace MergeGroup

/-- The numbers that a group joins, in their order. Zero is no number of a
    pair, and entries that are too wide are passed over. -/
def numbers (g : MergeGroup) : List UInt64 :=
  ((g.entries.filter fun e => decide (e.width ≤ maxExpanded)).flatMap
    MergeEntry.numbers).filter fun n => decide (0 < n)

/-- How long the merged clip plays about: the naive times of its pairs added
    up. Numbers that no pair has count for nothing. -/
def naiveTime {α : Type} [Scalar α] (g : MergeGroup) (pairs : List (Pair α)) : α :=
  Scalar.sum <|
    ((g.entries.flatMap fun e => e.existing pairs.length).filterMap fun n => pairs[n - 1]?).map
      Pair.naiveTime

/-- Reads the entries of a group. -/
def parse (cs : List Char) : MergeGroup where
  source := String.ofList (Text.trim cs)
  entries := (Text.pieces ',' cs).filterMap MergeEntry.parse?

end MergeGroup

namespace MergeList

/-- Reads the groups of a list, the empty ones included. -/
def parseChars (cs : List Char) : List MergeGroup :=
  (Text.pieces ';' cs).map MergeGroup.parse

/-- Reads the groups of a list. -/
def parse (list : String) : List MergeGroup :=
  parseChars list.toList

/-- How long each merged clip of a list plays about. -/
def naiveTimes {α : Type} [Scalar α] (list : String) (pairs : List (Pair α)) : List α :=
  (parse list).map fun g => g.naiveTime pairs

/-- The groups of a list that join anything, as they are written, and what
    they join. -/
def expand (list : String) : List (String × List UInt64) :=
  (parse list).filterMap fun g =>
    if g.numbers.isEmpty then none else some (g.source, g.numbers)

/-- Durations in a row. -/
def timesText {α : Type} [Scalar α] (times : List α) : String :=
  " ; ".intercalate (times.map clockText)

end MergeList

end Retime
