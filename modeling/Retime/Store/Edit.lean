import Retime.Store.Basic

/-!
# Edits

Every edit of a session as a value, and what it does.

A session has settings beside its pairs. Most edits only read them; a change
of resolution changes both at once, since the crops of the pairs and that of
new pairs are counted in the same pixels.

## Main definitions

* `Project`: The pairs and the settings of a session.
* `Edit`, `Outcome`: An edit, and what it reports.
* `Project.edit`, `Project.perform`: What an edit does.
-/

namespace Retime

/-- The pairs and the settings of a session. -/
structure Project (α : Type) where
  store : Store α
  settings : Settings α

/-- An edit of a session. -/
inductive Edit (α : Type) where
  | add (start stop : α) (speed : Option α)
  | place (time : α)
  | cancel
  | move (index : Nat) (side : Side) (time : α)
  | undoMove (index : Nat)
  | redoMove (index : Nat)
  | delete (index : Nat)
  | reorder (source target : Nat)
  | undoPair
  | redoPair
  | setSpeed (index : Nat) (speed : α)
  /-- Sets a crop, which is counted in the resolution of the session unless
      another is given. -/
  | setCrop (index : Nat) (crop : Crop) (resolution : Option Resolution)
  | setOverrides (index : Nat) (overrides : Options α)
  | replaceMap (index : Nat) (map : SpeedMap α)
  | setAllSpeeds (speed : α)
  | setAllCrops (crop : Crop)
  | rescale (resolution : Resolution)
  | setRate (rate : α)

/-- What an edit reports. -/
inductive Outcome (α : Type) where
  | done
  /-- The place of a pair that is new or was brought back. -/
  | place (index : Option Nat)
  | placed (marker : Placed α)
  /-- The pending start that was given up. -/
  | cancelled (time : Option α)
  /-- The marker that was moved. -/
  | moved (side : Option Side)
  | removed (pair : Pair α)
  /-- Whether there was anything to undo. -/
  | undone (any : Bool)

namespace Project

variable {α : Type} [Scalar α]

/-- An edit of the store of a session. -/
def onStore {β : Type} (f : InPlace (EditError α) (Store α) β) :
    InPlace (EditError α) (Project α) β := fun p =>
  match f p.store with
  | .ok b store => .ok b { p with store }
  | .error e store => .error e { p with store }

/-- What an edit does to a session in place. -/
def edit : Edit α → InPlace (EditError α) (Project α) (Outcome α)
  | .add start stop speed => do
    let index ← onStore (Store.add start stop (← get).settings speed)
    return .place (some index)
  | .place time => return .placed (← onStore (Store.place time (← get).settings))
  | .cancel => return .cancelled (← onStore Store.cancel)
  | .move index side time => do
    onStore (Store.move index side time)
    return .done
  | .undoMove index => return .moved (← onStore (Store.undoMove index))
  | .redoMove index => return .moved (← onStore (Store.redoMove index))
  | .delete index => return .removed (← onStore (Store.delete index))
  | .reorder source target => do
    onStore (Store.reorder source target)
    return .done
  | .undoPair => return .undone (← onStore Store.undoPair)
  | .redoPair => return .place (← onStore Store.redoPair)
  | .setSpeed index speed => do
    onStore (Store.setSpeed index speed)
    return .done
  | .setCrop index crop resolution => do
    let r := resolution.getD (← get).settings.resolution
    onStore (Store.setCrop index crop r)
    return .done
  | .setOverrides index overrides => do
    onStore (Store.setOverrides index overrides)
    return .done
  | .replaceMap index map => do
    onStore (Store.replaceMap index map)
    return .done
  | .setAllSpeeds speed => do
    onStore (Store.setAllSpeeds speed)
    return .done
  | .setAllCrops crop => do
    onStore (Store.setAllCrops crop (← get).settings.resolution)
    return .done
  | .rescale resolution => do
    let p ← get
    let (store, settings) := p.store.rescale resolution p.settings
    set (⟨store, settings⟩ : Project α)
    return .done
  | .setRate rate => do
    onStore (Store.setRate rate)
    return .done

/-- The session after an edit with the report of it, or why it is refused. -/
def perform (p : Project α) (e : Edit α) : Except (EditError α) (Project α × Outcome α) :=
  (edit e).outcome p

end Project

end Retime
