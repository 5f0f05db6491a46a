import Retime.Preview.Session
import Retime.Store.Basic

/-!
# Preview Ticks

What a preview does on every frame that a player shows.

One preview makes the player play at the speed of the pair it is in. Where
pairs overlap the shortest decides, as it is the one that somebody works on.
The player is told only of changes. The other preview keeps the player inside
the selected pair, or inside a part of it.

A tick is a function of what the player shows. It returns what the player is
to be told, and whether there is to be another tick.

## Main definitions

* `PlayerCall`: What a player is told.
* `Tick`: What comes of a tick.
* `duckingTick`, `loopingTick`: The two previews.
-/

namespace Retime

/-- What a player is told. -/
inductive PlayerCall (α : Type) where
  /-- To play at a rate. -/
  | rate (r : α)
  /-- To go on from a time. -/
  | seek (time : α)
deriving Repr

/-- What comes of a tick. -/
structure Tick (α : Type) where
  session : Session α
  calls : List (PlayerCall α)
  /-- Whether there is to be another tick. -/
  again : Bool
deriving Repr

variable {α : Type} [Scalar α]

/-- The rate to play at, at a time. -/
def rateAt (session : Session α) (store : Store α) (settings : Settings α) (now : α) : α :=
  match (store.shortestAt now).bind fun i => store.pairs[i]? with
  | none => 1.0
  | some p =>
    if settings.speedMapsFor p.overrides then
      p.map.sample ⟨session.easing, settings.roundingFor p.overrides, session.precision⟩ now
    else
      p.speed

/-- Makes the player play at the speed of the shortest pair it is in. When the
    preview has been turned off, the rate goes back to normal. -/
def duckingTick (session : Session α) (store : Store α) (settings : Settings α) (now : α) :
    Tick α :=
  let rate := rateAt session store settings now
  let changed := if rate != session.rate then [PlayerCall.rate rate] else []
  if session.ducking then
    ⟨{ session with rate := if rate != session.rate then rate else session.rate }, changed, true⟩
  else
    ⟨{ session with rate := 1.0 }, changed ++ [.rate 1.0], false⟩

/-- The part of the source that a player is kept in. -/
def loopBounds (p : Pair α) : α × α :=
  (p.loop.active? p.start p.stop).getD (p.start, p.stop)

/-- Keeps the player inside the selected pair. -/
def loopingTick (session : Session α) (store : Store α) (now : α) : Tick α :=
  let calls :=
    match session.selected.bind fun i => store.pairs[i]? with
    | none => []
    | some p =>
      let (start, stop) := loopBounds p
      if start ≤ now ∧ now ≤ stop then [] else [PlayerCall.seek start]
  ⟨session, calls, session.looping⟩

end Retime
