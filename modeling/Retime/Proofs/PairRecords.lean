import Retime.Document.Pair
import Retime.Proofs.SoundEdits

/-!
# Records and Back

What a record of a pair makes, at any scalars.

A record is taken of a pair and a pair is made of the record. The markers stand
beside the map they were read off, so bringing the map onto them moves nothing,
provided that a time counts as lying on itself. Doubles and exact numbers have
different reasons for that, so it is asked of the map. Where no speed changes
there is no map in the record, and one of two points is made instead.

A play time goes into the record whatever it is. It comes back only if it can be
one, that is, if it is finite and not below zero. Otherwise the naive time stands
in for it.

## Main definitions

* `SpeedMap.OnMarkers`: The ends of a map count as lying on themselves.
* `Pair.returned`: The pair that the record of a pair makes.

## Theorems

* `SpeedMap.alignEnds_self`: A map is left alone by its own markers.
* `Pair.ofRecord_toRecord`: What comes back is what was said.
-/

namespace Retime

namespace SpeedMap

variable {α : Type} [Scalar α] {m : SpeedMap α}

/-- The ends of a map count as lying on themselves. -/
structure OnMarkers (m : SpeedMap α) : Prop where
  start : ¬ Pair.tolerance < Scalar.abs (m.start - m.start)
  stop : ¬ Pair.tolerance < Scalar.abs (m.stop - m.stop)

/-- A map is left alone by its own markers. -/
theorem alignEnds_self (hm : m.OnMarkers) :
    Pair.alignEnds m.points m.start m.stop = .ok m.points := by
  have hlast : m.points.getLast? = some m.last :=
    List.getLast?_concat (l := m.first :: m.inner)
  unfold Pair.alignEnds
  rw [hlast]
  change (if Pair.tolerance < Scalar.abs (m.start - m.start) ∨
    Pair.tolerance < Scalar.abs (m.stop - m.stop) then _ else _) = _
  rw [if_neg (not_or.mpr ⟨hm.start, hm.stop⟩), retime_points]
  rfl

theorem ofList_sound [OrderedScalar α] (hm : m.Sound) : ofList m.points = .ok m :=
  ofList_points_eq_ok_iff.mpr ⟨(flaw?_eq_none_iff m).mpr hm, rfl⟩

end SpeedMap

namespace Pair

variable {α : Type} [Scalar α]

/-- The pair that the record of a pair makes. -/
def returned (p : Pair α) : Pair α :=
  { p with
    map := if p.map.isVariable then p.map else .plain p.start p.stop p.speed
    playTime := (storedTime? p.toRecord).getD p.naiveTime
    moves := {} }

/-- A play time that can be one comes back. -/
theorem returned_playTime_of_le {p : Pair α} (hfinite : Scalar.isFinite p.playTime = true)
    (hle : (0.0 : α) ≤ p.playTime) : p.returned.playTime = p.playTime := by
  have htime : storedTime? p.toRecord = some p.playTime := by
    refine Option.filter_eq_some_iff.mpr ⟨rfl, ?_⟩
    simp [hfinite, hle]
  change (storedTime? p.toRecord).getD p.naiveTime = p.playTime
  rw [htime]
  rfl

/-- The naive time stands in for any other. -/
theorem returned_playTime_of_not_le {p : Pair α} (hless : ¬ (0.0 : α) ≤ p.playTime) :
    p.returned.playTime = p.naiveTime := by
  have htime : storedTime? p.toRecord = none := by
    refine Option.filter_eq_none_iff.mpr fun x hx => ?_
    cases hx
    simp [hless]
  change (storedTime? p.toRecord).getD p.naiveTime = p.naiveTime
  rw [htime]
  rfl

/-- The ends and the first speed come back, and they make the naive time. -/
theorem naiveTime_returned_map (p : Pair α) (crop : Crop) :
    (ofMap p.returned.map crop).playTime = p.naiveTime := by
  change (p.returned.map.stop - p.returned.map.start) / p.returned.map.first.speed =
    (p.map.stop - p.map.start) / p.map.first.speed
  unfold returned
  dsimp only
  by_cases hvariable : p.map.isVariable = true
  · rw [if_pos hvariable]
  · rw [if_neg hvariable]
    rfl

variable [OrderedScalar α]

theorem mapOfRecord_toRecord {p : Pair α} (hp : p.map.Sound) (hon : p.map.OnMarkers) :
    mapOfRecord p.toRecord = .ok p.returned.map := by
  have hspeed := hp.speed p.map.first List.mem_cons_self
  unfold mapOfRecord
  by_cases hvariable : p.map.isVariable = true
  · have hpoints : p.toRecord.points = some p.map.points := if_pos hvariable
    have hmap : p.returned.map = p.map := if_pos hvariable
    rw [hpoints, hmap]
    dsimp only
    -- The markers are the ends of the map, so aligning moves nothing.
    change (alignEnds p.map.points p.map.start p.map.stop >>= fun ps => SpeedMap.ofList ps) = _
    rw [SpeedMap.alignEnds_self hon]
    exact SpeedMap.ofList_sound hp
  · have hpoints : p.toRecord.points = none := if_neg hvariable
    have hmap : p.returned.map = .plain p.start p.stop p.speed := if_neg hvariable
    have hcheck : SpeedMap.checkSpeed p.toRecord.speed = .ok () := if_pos hspeed
    rw [hpoints, hmap]
    dsimp only
    -- Nothing is in the record, and the markers and the speed make a map.
    rw [hcheck]
    change (if p.map.stop ≤ p.map.start then _ else _) = _
    rw [if_neg hp.span]
    exact SpeedMap.ofList_sound (hp.plain hspeed)

/-- What comes back is what was said. -/
theorem ofRecord_toRecord {p : Pair α} (hp : p.map.Sound) (hon : p.map.OnMarkers) :
    ofRecord p.toRecord = .ok p.returned := by
  have hnaive := p.naiveTime_returned_map p.crop
  unfold ofRecord
  rw [mapOfRecord_toRecord hp hon]
  change Except.ok { ofMap p.returned.map p.crop with
    overrides := p.overrides
    loop := p.loop
    playTime := (storedTime? p.toRecord).getD (ofMap p.returned.map p.crop).playTime } = _
  rw [hnaive]
  rfl

end Pair

end Retime
