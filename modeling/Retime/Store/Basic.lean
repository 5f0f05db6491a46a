import Retime.Document.Markers
import Retime.Merge.List
import Retime.Pair.Timing
import Retime.Store.Parked

/-!
# The Store of Pairs

All pairs of a session in their order, and every edit of them.

A pair is named by its place, counted from zero; the number that is shown to
people is its place counted from one, and changes when pairs before it do.
Every edit that changes a speed map computes the play time of that pair anew,
at the frame rate of the store, so that no play time is ever out of date.

The frame rate is held twice, once by the grid that markers are placed on and
once by the grid that play times are computed on. They are given together and
changed one after the other.

The edits work in place. Most of them ask for everything that may be refused
before they touch the store; the ones that do not are the edits of a single
pair, which go to the pair first, and the speed of all pairs, which goes from
pair to pair.

A pair can be created in two steps, by a marker at its start and another at
its end. Between them the start is pending. It is given up by undoing, and
stays where an end is refused.

## Main definitions

* `Store`: The pairs of a session.
* `Store.onPair`: An edit of the pair at a place.
* `Store.add`, `Store.place`: Creating a pair, at once or in two steps.
* `Store.undoPair`, `Store.redoPair`: Taking the latest pair away, and back.
* `Store.move`, `Store.undoMove`, `Store.redoMove`: Moving a marker, and back.
* `Store.shortestAt`: The pair that drives a preview.
-/

namespace Retime

/-- The pairs of a session. -/
structure Store (α : Type) where
  pairs : List (Pair α)
  /-- The pairs that were undone. -/
  parked : Parked α
  /-- The start of a pair whose end is to come. -/
  pending : Option α
  /-- The grid that markers are placed on. -/
  grid : FrameGrid α
  /-- The grid that play times are computed on. -/
  engine : FrameGrid α

/-- What came of a marker. -/
inductive Placed (α : Type) where
  /-- It is the start of a pair to come. -/
  | start (time : α)
  /-- It completed the pair at this place. -/
  | pair (index : Nat)
deriving Repr

namespace Store

variable {α : Type} [Scalar α]

/-- The grid of a frame rate, or the refusal of the rate. -/
def gridOf (rate : α) : Except (EditError α) (FrameGrid α) :=
  EditError.liftTiming (FrameGrid.ofRate rate)

/-- Refuses an edit for the reasons of the marker data. -/
def marking {σ β : Type} (r : Except (MarkerError α) β) : InPlace (EditError α) σ β :=
  InPlace.demand <|
    match r with
    | .ok b => .ok b
    | .error cause => .error (.marker cause)

/-- A pair with its play time computed. -/
def timed (g : FrameGrid α) (p : Pair α) : Pair α :=
  { p with playTime := g.playTime p.map }

/-- The store with all play times computed. -/
def refreshed (s : Store α) : Store α :=
  { s with pairs := s.pairs.map (timed s.engine) }

/-- A store without pairs. -/
def empty (rate : α) : Except (EditError α) (Store α) := do
  let engine ← gridOf rate
  let grid ← gridOf rate
  return { pairs := [], parked := .empty Parked.storeLimit, pending := none, grid, engine }

/-- A store of pairs. Their play times are computed. -/
def ofPairs (pairs : List (Pair α)) (rate : α) : Except (EditError α) (Store α) := do
  let s ← empty rate
  return refreshed { s with pairs }

/-- Another frame rate. All play times are computed. -/
def setRate (rate : α) : InPlace (EditError α) (Store α) Unit := do
  let engine ← InPlace.demand (gridOf rate)
  modify fun s => { s with engine }
  let grid ← InPlace.demand (gridOf rate)
  modify fun s => { s with grid }
  modify refreshed

/-- The pair at a place. -/
def pair (s : Store α) (index : Nat) : Except (EditError α) (Pair α) :=
  match s.pairs[index]? with
  | some p => .ok p
  | none => .error (.noSuchPair (index + 1) s.pairs.length)

/-- The store with another pair at a place. -/
def replace (s : Store α) (index : Nat) (p : Pair α) : Store α :=
  { s with pairs := s.pairs.set index p }

/-- An edit of the pair at a place. What it leaves of the pair stays in the
    store, also if it is refused. -/
def onPair {β : Type} (index : Nat) (f : InPlace (MarkerError α) (Pair α) β) :
    InPlace (EditError α) (Store α) β := fun s =>
  match s.pair index with
  | .error e => .error e s
  | .ok p =>
    match f p with
    | .ok b p => .ok b (s.replace index p)
    | .error cause p => .error (.marker cause) (s.replace index p)

/-- An edit of each pair in turn. -/
def onPairs (f : InPlace (MarkerError α) (Pair α) Unit) :
    InPlace (EditError α) (Store α) Unit := fun s =>
  match InPlace.each f s.pairs with
  | .ok _ pairs => .ok () { s with pairs }
  | .error cause pairs => .error (.marker cause) { s with pairs }

/-- Changes the map of a pair, and computes its play time. -/
def remapped (g : FrameGrid α) (f : Pair α → Except (MarkerError α) (Pair α)) :
    InPlace (MarkerError α) (Pair α) Unit := do
  InPlace.update f
  modify (timed g)

/-- Goes one move back or forth, and computes the play time if there was one. -/
def stepped (g : FrameGrid α) (f : InPlace (MarkerError α) (Pair α) (Option Side)) :
    InPlace (MarkerError α) (Pair α) (Option Side) := do
  let side ← f
  if side.isSome then
    modify (timed g)
  return side

/-- Gives up a pending start, and returns it. -/
def cancel : InPlace (EditError α) (Store α) (Option α) := do
  let s ← get
  set { s with pending := none }
  return s.pending

/-- Creates a pair with the defaults of the session, at the end of the store.
    Pairs that were undone are lost. -/
def add (start stop : α) (settings : Settings α) (speed : Option α) :
    InPlace (EditError α) (Store α) Nat := do
  let crop := settings.newCrop.inside settings.resolution
  let p ← marking (Pair.make start stop (speed.getD settings.newSpeed) crop)
  modify fun s => { s with pairs := s.pairs ++ [timed s.engine p] }
  modify fun s => { s with parked := s.parked.clear }
  return (← get).pairs.length - 1

/-- Places a marker at the beginning of the frame that a time falls into. The
    first is a start, and the second completes the pair. -/
def place (time : α) (settings : Settings α) :
    InPlace (EditError α) (Store α) (Placed α) := do
  let s ← get
  let time := s.grid.snapDown time
  match s.pending with
  | none =>
    set { s with pending := some time }
    return .start time
  | some start =>
    if time ≤ start then
      throw (.marker (.endBeforeStart time start))
    -- The start stays pending unless the pair is created.
    let index ← add start time settings none
    modify fun s => { s with pending := none }
    return .pair index

/-- Moves a marker of the pair at a place. -/
def move (index : Nat) (side : Side) (time : α) : InPlace (EditError α) (Store α) Unit := do
  onPair index (remapped (← get).engine (Pair.move side time))

/-- Takes the latest move of the pair at a place back. -/
def undoMove (index : Nat) : InPlace (EditError α) (Store α) (Option Side) := do
  onPair index (stepped (← get).engine Pair.takeBack)

/-- Makes a move of the pair at a place again. -/
def redoMove (index : Nat) : InPlace (EditError α) (Store α) (Option Side) := do
  onPair index (stepped (← get).engine Pair.makeAgain)

/-- Takes the pair at a place away for good, and returns it. -/
def delete (index : Nat) : InPlace (EditError α) (Store α) (Pair α) := do
  let s ← get
  let p ← InPlace.demand (s.pair index)
  set { s with pairs := s.pairs.eraseIdx index }
  return p

/-- Moves the pair at one place to another. The others keep their order. -/
def reorder (source target : Nat) : InPlace (EditError α) (Store α) Unit := do
  let s ← get
  let p ← InPlace.demand (s.pair source)
  let _ ← InPlace.demand (s.pair target)
  set { s with pairs := (s.pairs.eraseIdx source).insertIdx target p }

/-- Gives up a pending start, or else parks the last pair. False if there was
    neither. -/
def undoPair : InPlace (EditError α) (Store α) Bool := do
  let s ← get
  match s.pending, s.pairs.getLast? with
  | some _, _ =>
    set { s with pending := none }
    return true
  | none, some p =>
    set { s with pairs := s.pairs.dropLast, parked := s.parked.push p }
    return true
  | none, none => return false

/-- Brings the latest parked pair back, and returns its place. -/
def redoPair : InPlace (EditError α) (Store α) (Option Nat) := do
  let s ← get
  match s.parked.pop with
  | none => return none
  | some (p, parked) =>
    set { s with pairs := s.pairs ++ [timed s.engine p], parked }
    return some s.pairs.length

/-- Sets the speed of the pair at a place. -/
def setSpeed (index : Nat) (speed : α) : InPlace (EditError α) (Store α) Unit := do
  onPair index (remapped (← get).engine (Pair.setSpeed speed))

/-- Sets the crop of the pair at a place, brought inside a resolution. -/
def setCrop (index : Nat) (crop : Crop) (r : Resolution) :
    InPlace (EditError α) (Store α) Unit :=
  onPair index (modify fun p => { p with crop := crop.inside r })

/-- Sets the options that the pair at a place decides itself. -/
def setOverrides (index : Nat) (overrides : Options α) :
    InPlace (EditError α) (Store α) Unit :=
  onPair index (modify fun p => { p with overrides })

/-- Gives the pair at a place another speed map. -/
def replaceMap (index : Nat) (map : SpeedMap α) : InPlace (EditError α) (Store α) Unit := do
  onPair index (remapped (← get).engine (Pair.replaceMap map))

/-- Sets the speed of all pairs. A speed that no map could have is refused
    before the first. -/
def setAllSpeeds (speed : α) : InPlace (EditError α) (Store α) Unit := do
  let _ ← marking (SpeedMap.constant 0.0 1.0 speed)
  onPairs (remapped (← get).engine (Pair.setSpeed speed))

/-- Sets the crop of all pairs, brought inside a resolution. -/
def setAllCrops (crop : Crop) (r : Resolution) : InPlace (EditError α) (Store α) Unit :=
  modify fun s => { s with pairs := s.pairs.map fun p => { p with crop := crop.inside r } }

/-- Changes the resolution that crops are counted in. All crops are scaled and
    brought inside, and that of new pairs with them. -/
def rescale (r : Resolution) (settings : Settings α) (s : Store α) : Store α × Settings α :=
  let old := settings.resolution
  let horizontal : α := Scalar.ofNat r.width.toNat / Scalar.ofNat old.width.toNat
  let vertical : α := Scalar.ofNat r.height.toNat / Scalar.ofNat old.height.toNat
  let convert (c : Crop) := (c.scaled horizontal vertical).inside r
  ({ s with pairs := s.pairs.map fun p => { p with crop := convert p.crop } },
    { settings with newCrop := convert settings.newCrop, resolution := r })

/-- Of two pairs with their places, the one that is shorter; the first, if
    neither is. -/
def shorter (best : Option (Nat × α)) (next : Nat × α) : Option (Nat × α) :=
  match best with
  | some (i, span) => if span ≤ next.2 then some (i, span) else some next
  | none => some next

/-- The place of the shortest pair that contains a time, and of several the
    first. -/
def shortestAt (time : α) (s : Store α) : Option Nat :=
  let active := s.pairs.zipIdx.filter fun (p, _) => p.contains time
  (active.foldl (fun best (p, i) => shorter best (i, p.span)) none).map Prod.fst

/-- The document with the pairs of the store. -/
def writeTo (s : Store α) (d : Markers α) : Markers α :=
  { d with pairs := s.pairs }

end Store

end Retime
