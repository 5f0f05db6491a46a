import Retime.Pair.Edit
import Retime.Proofs.InPlace
import Retime.Proofs.SoundMap

/-!
# What Edits of a Pair Leave

One lemma for each edit of a pair, which says all that it does.

An edit that sets the speed, replaces the map or moves a marker is a function
that may refuse, and its lemma says what the pair is when it does not. Going
back and forth through the moves is an edit in place. It takes a record off a
stack before it asks the map and puts it back if the map refuses, so its lemma
is an equation: what is left by a refusal is the pair as it was.

## Theorems

* `Pair.setSpeed_eq_ok`, `Pair.move_eq_ok`, `Pair.replaceMap_eq_ok`: What an
  accepted edit leaves.
* `Pair.takeBack_eq`, `Pair.makeAgain_eq`: Going one move back or forth.
* `Pair.edit_atomic`: A refused edit leaves the pair as it was.
-/

namespace Retime

namespace Pair

variable {α : Type} [Scalar α]

/-- The uniform speed of a pair is that of its map. -/
theorem setSpeed_eq_ok {p q : Pair α} {speed : α} (h : p.setSpeed speed = .ok q) :
    ∃ m, p.map.setSpeed speed = .ok m ∧ q = { p with map := m } := by
  unfold setSpeed at h
  cases hm : p.map.setSpeed speed with
  | error cause => rw [hm] at h; cases h
  | ok m => rw [hm] at h; cases h; exact ⟨m, rfl, rfl⟩

/-- A move is remembered with the points it dropped. -/
theorem move_eq_ok {p q : Pair α} {side : Side} {time : α} (h : p.move side time = .ok q) :
    p.map.admits side time = true ∧
      q = { p with
        map := (p.map.cut side time).1
        moves := ⟨⟨side, p.map.boundary side, time, (p.map.cut side time).2⟩ :: p.moves.undo,
          []⟩ } := by
  unfold move at h
  cases hm : p.map.moveBoundary side time with
  | error cause => rw [hm] at h; cases h
  | ok r =>
      -- A move that was done is the cut, and the record holds what it cut off.
      rcases SpeedMap.moveBoundary_eq_ok_iff.mp hm with ⟨hadmits, hcut⟩
      rw [hm] at h
      cases h
      rw [hcut]
      exact ⟨hadmits, rfl⟩

/-- A map that is accepted in the place of another is brought onto the markers
    and then has no flaw. -/
theorem replaceMap_eq_ok {p q : Pair α} {map : SpeedMap α}
    (h : p.replaceMap map = .ok q) :
    (map.retimed p.start p.stop).flaw? = none ∧
      q = { p with map := map.retimed p.start p.stop } := by
  unfold replaceMap at h
  cases halign : alignEnds map.points p.start p.stop with
  | error cause => rw [halign] at h; cases h
  | ok ps =>
      have hps : ps = (map.retimed p.start p.stop).points := by
        unfold alignEnds at halign
        split at halign
        · split at halign
          · cases halign
          · rw [← SpeedMap.retime_points]
            exact (Except.ok.inj halign).symm
        · cases halign
      rw [halign] at h
      change (SpeedMap.ofList ps >>= fun m => pure { p with map := m }) = _ at h
      cases hm : SpeedMap.ofList ps with
      | error cause => rw [hm] at h; cases h
      | ok m =>
          -- The points were those of a map before they were read as one.
          rw [hps, SpeedMap.ofList_points_eq_ok_iff] at hm
          rw [hps, SpeedMap.ofList_points_eq_ok_iff.mpr hm] at h
          cases h
          rw [hm.2]
          exact ⟨hm.2 ▸ hm.1, rfl⟩

/-- What taking a move back does, once there is one. -/
theorem takeBack_eq {p : Pair α} {r : MoveRecord α} {rs : List (MoveRecord α)}
    (h : p.moves.undo = r :: rs) :
    takeBack p =
      match p.map.restoreBoundary r.side r.source r.dropped with
      | .error cause => .error cause p
      | .ok map => .ok (some r.side) { p with map, moves := ⟨rs, r :: p.moves.redo⟩ } := by
  rcases p with ⟨map, crop, overrides, loop, playTime, undo, redo⟩
  change undo = r :: rs at h
  subst h
  -- The block puts the record aside first, and back if the map refuses it.
  change (match map.restoreBoundary r.side r.source r.dropped with
    | .error cause => _
    | .ok map => _ : InPlace (MarkerError α) (Pair α) (Option Side)) _ = _
  cases map.restoreBoundary r.side r.source r.dropped <;> rfl

theorem takeBack_nil {p : Pair α} (h : p.moves.undo = []) : takeBack p = .ok none p := by
  rcases p with ⟨map, crop, overrides, loop, playTime, undo, redo⟩
  change undo = [] at h
  subst h
  rfl

/-- What making a move again does, once there is one. -/
theorem makeAgain_eq {p : Pair α} {r : MoveRecord α} {rs : List (MoveRecord α)}
    (h : p.moves.redo = r :: rs) :
    makeAgain p =
      match p.map.moveBoundary r.side r.target with
      | .error cause => .error cause p
      | .ok (map, dropped) =>
        .ok (some r.side) { p with map, moves := ⟨{ r with dropped } :: p.moves.undo, rs⟩ } := by
  rcases p with ⟨map, crop, overrides, loop, playTime, undo, redo⟩
  change redo = r :: rs at h
  subst h
  change (match map.moveBoundary r.side r.target with
    | .error cause => _
    | .ok (map, dropped) => _ : InPlace (MarkerError α) (Pair α) (Option Side)) _ = _
  cases map.moveBoundary r.side r.target <;> rfl

theorem makeAgain_nil {p : Pair α} (h : p.moves.redo = []) : makeAgain p = .ok none p := by
  rcases p with ⟨map, crop, overrides, loop, playTime, undo, redo⟩
  change redo = [] at h
  subst h
  rfl

/-- Only where there is no move to take back is none reported. -/
theorem takeBack_none {p q : Pair α} (h : takeBack p = .ok none q) : p.moves.undo = [] := by
  cases hundo : p.moves.undo with
  | nil => rfl
  | cons r rs =>
      rw [takeBack_eq hundo] at h
      cases hmap : p.map.restoreBoundary r.side r.source r.dropped with
      | error cause => rw [hmap] at h; cases h
      | ok map => rw [hmap] at h; cases h

/-- Only where there is no move to make again is none reported. -/
theorem makeAgain_none {p q : Pair α} (h : makeAgain p = .ok none q) : p.moves.redo = [] := by
  cases hredo : p.moves.redo with
  | nil => rfl
  | cons r rs =>
      rw [makeAgain_eq hredo] at h
      cases hmap : p.map.moveBoundary r.side r.target with
      | error cause => rw [hmap] at h; cases h
      | ok moved => rw [hmap] at h; cases h

theorem takeBack_atomic : InPlace.Atomic (takeBack (α := α)) := by
  intro p cause q h
  -- With no move to take back nothing can be refused.
  cases hundo : p.moves.undo with
  | nil => rw [takeBack_nil hundo] at h; cases h
  | cons r rs =>
      rw [takeBack_eq hundo] at h
      cases hmap : p.map.restoreBoundary r.side r.source r.dropped with
      | error cause' => rw [hmap] at h; cases h; rfl
      | ok map => rw [hmap] at h; cases h

theorem makeAgain_atomic : InPlace.Atomic (makeAgain (α := α)) := by
  intro p cause q h
  -- As for taking back, only the map can refuse, and then the record is put back.
  cases hredo : p.moves.redo with
  | nil => rw [makeAgain_nil hredo] at h; cases h
  | cons r rs =>
      rw [makeAgain_eq hredo] at h
      cases hmap : p.map.moveBoundary r.side r.target with
      | error cause' => rw [hmap] at h; cases h; rfl
      | ok moved => rw [hmap] at h; cases h

/-- A refused edit leaves the pair as it was. -/
theorem edit_atomic (e : PairEdit α) : InPlace.Atomic (edit e) := by
  cases e with
  | move side time => exact (InPlace.update_atomic _).bind_accepts fun _ => InPlace.pure_accepts _
  | undo => exact takeBack_atomic
  | redo => exact makeAgain_atomic
  | setSpeed speed => exact (InPlace.update_atomic _).bind_accepts fun _ => InPlace.pure_accepts _
  | replaceMap map => exact (InPlace.update_atomic _).bind_accepts fun _ => InPlace.pure_accepts _

end Pair

end Retime
