import Retime.Document.Config
import Retime.Speed.Sample

/-!
# Preview Sessions

What an editor remembers while somebody works in it: which pair is selected,
which previews run, and the rate that the player was given last.

A selection names a place, and places change when pairs are taken away or
moved. The session is told of such changes, so that the selection stays with
its pair.

## Main definitions

* `Session`: What an editor remembers.
* `Session.afterRemoval`, `Session.afterMove`: The selection stays with its
  pair.
-/

namespace Retime

/-- What an editor remembers. -/
structure Session (α : Type) where
  /-- The place of the selected pair. -/
  selected : Option Nat
  /-- Whether the player follows the speed of the pair it is in. -/
  ducking : Bool
  /-- Whether the player stays in the selected pair. -/
  looping : Bool
  /-- The rate that the player was given last. -/
  rate : α
  easing : Easing
  /-- The decimals that are kept of a rounded speed. -/
  precision : UInt32
deriving Repr

namespace Session

variable {α : Type} [Scalar α]

/-- A session in which nothing has been done. -/
def initial : Session α :=
  ⟨none, false, false, 1.0, .linear, 2⟩

/-- The session of somebody with a configuration. An easing that has no such
    name is an even one. -/
def ofConfig (c : Config α) : Session α :=
  let easing :=
    match (Easing.parse c.easing : Except (TimingError α) Easing) with
    | .ok e => e
    | .error _ => .linear
  { initial with easing, precision := c.precision }

/-- Turns following the speed on or off. -/
def toggleDucking (s : Session α) : Session α :=
  { s with ducking := !s.ducking }

/-- Turns staying in the selected pair on or off. -/
def toggleLooping (s : Session α) : Session α :=
  { s with looping := !s.looping }

/-- Changes the easing to the other one. -/
def toggleEasing (s : Session α) : Session α :=
  { s with easing := s.easing.toggled }

/-- Selects the pair at a place, or none. -/
def select (place : Option Nat) (s : Session α) : Session α :=
  { s with selected := place }

/-- The session after the pair at a place was taken away. -/
def afterRemoval (removed : Nat) (s : Session α) : Session α :=
  { s with
    selected := s.selected.bind fun i =>
      if i = removed then none else if removed < i then some (i - 1) else some i }

/-- The session after a pair was moved from one place to another. -/
def afterMove (source target : Nat) (s : Session α) : Session α :=
  { s with
    selected := s.selected.map fun i =>
      if i = source then target
      else if source < i ∧ i ≤ target then i - 1
      else if target ≤ i ∧ i < source then i + 1
      else i }

end Session

end Retime
