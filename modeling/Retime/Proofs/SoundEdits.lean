import Retime.Document.Pair
import Retime.Proofs.ClipLength
import Retime.Proofs.Outcome
import Retime.Proofs.PairEdits
import Retime.Scalar.Double

/-!
# Sound Maps Stay Sound

There is no way to a pair whose speed map is unsound.

A map is checked where it is built, where it replaces another, and where a
move is taken back. The other edits rewrite it without looking. That they need
not look is a matter of order: a boundary that is moved leaves the points that
are still inside, in their order, and the end points are always among them.
`partition_points` says this of the whole row of points, ends included.

## Main definitions

* `Pair.Built`: A pair that was created, put together or read.
* `Pair.run`: A pair after a run of edits, done or refused.

## Theorems

* `SpeedMap.partition_points`: Which points a boundary move keeps.
* `SpeedMap.reversed_reversed`: Reversing twice restores a map.
* `Pair.after_sound`: An edit keeps the map of a pair sound.
* `edits_keep_maps_sound`: Every pair has a sound map after every run of edits.
-/

namespace Retime

namespace SpeedMap

variable {α : Type}

/-- Two maps with the same points are the same. -/
theorem points_inj {m n : SpeedMap α} (h : m.points = n.points) : m = n := by
  have hm := ofEnds?_points m
  rw [h, ofEnds?_points] at hm
  exact (Option.some.inj hm).symm

/-- A map is determined by its times and its speeds. -/
theorem ext_of_times_speeds {m n : SpeedMap α} (htimes : m.times = n.times)
    (hspeeds : m.speeds = n.speeds) : m = n := by
  have hzip : ∀ ps : List (SpeedPoint α),
      (ps.map SpeedPoint.time).zipWith SpeedPoint.mk (ps.map SpeedPoint.speed) = ps := by
    intro ps
    rw [List.zipWith_map, List.zipWith_self]
    exact List.map_id ps
  refine points_inj ?_
  rw [← hzip m.points, ← hzip n.points]
  exact congrArg₂ (List.zipWith SpeedPoint.mk) htimes hspeeds

/-- Reversing twice restores a map. -/
theorem reversed_reversed (m : SpeedMap α) : m.reversed.reversed = m := by
  refine ext_of_times_speeds ?_ ?_
  · rw [reversed_times, reversed_times]
  · rw [reversed_speeds, reversed_speeds, List.reverse_reverse]

theorem getElem?_last (m : SpeedMap α) : m.points[m.points.length - 1]? = some m.last := by
  rw [← List.getLast?_eq_getElem?]
  change (m.first :: m.inner ++ [m.last]).getLast? = some m.last
  exact List.getLast?_concat

variable [Scalar α] [OrderedScalar α]

/-- A map that is read off a list has the points of the list, and is sound. -/
theorem ofList_eq_ok {ps : List (SpeedPoint α)} {m : SpeedMap α} (h : ofList ps = .ok m) :
    m.points = ps ∧ m.Sound := by
  unfold ofList at h
  cases hends : ofEnds? ps with
  | none => rw [hends] at h; cases h
  | some n =>
      rw [hends] at h
      rcases validated_eq_ok_iff.mp h with ⟨hflaw, rfl⟩
      exact ⟨points_ofEnds hends, (flaw?_eq_none_iff n).mp hflaw⟩

theorem validate_eq_ok_iff (m : SpeedMap α) : m.validate = .ok () ↔ m.Sound := by
  rw [← flaw?_eq_none_iff]
  unfold validate
  cases m.flaw? with
  | none => exact ⟨fun _ => rfl, fun _ => rfl⟩
  | some flaw => exact ⟨(fun h => nomatch h), fun h => nomatch h⟩

theorem Sound.start_lt_stop {m : SpeedMap α} (hm : m.Sound) : m.start < m.stop :=
  OrderedScalar.lt_of_not_le hm.finite_start hm.finite_stop hm.span

/-- The row of points of a map with a boundary set to a time, in the points that
    are still inside and the points that are not. -/
def parted (side : Side) (time : α) (ps : List (SpeedPoint α)) :
    List (SpeedPoint α) × List (SpeedPoint α) :=
  match side with
  | .start => (retimeFirst time ps).partition fun p => time ≤ p.time
  | .stop => (retimeLast time ps).partition fun p => p.time ≤ time

/-- A boundary that is moved keeps the points of the whole row that are still
    inside, both ends among them, and drops the others. -/
theorem partition_points {m : SpeedMap α} (hm : m.Sound) {side : Side} {time : α}
    (h : m.admits side time = true) :
    ((m.cut side time).1.points, (m.cut side time).2) = parted side time m.points := by
  rcases (admits_iff _ _ _).mp h with ⟨htime, hspan⟩
  have hself : time ≤ time := (OrderedScalar.total htime htime).elim id id
  -- The end that was moved is the time itself, and stays on its side.
  cases side with
  | start =>
      have hstop : time ≤ m.last.time := OrderedScalar.le_of_not_le htime hm.finite_stop hspan
      have hrow : retimeFirst time m.points =
          { m.first with time } :: (m.inner ++ [m.last]) := rfl
      rw [parted, hrow, List.partition_eq_filter_filter, cut_start]
      simp [points, hself, hstop, Function.comp_def]
  | stop =>
      have hstart : m.first.time ≤ time := OrderedScalar.le_of_not_le hm.finite_start htime hspan
      have hrow : retimeLast time m.points =
          m.first :: (m.inner ++ [{ m.last with time }]) :=
        retimeLast_concat time (m.first :: m.inner) m.last
      rw [parted, hrow, List.partition_eq_filter_filter, cut_stop]
      simp [points, hself, hstart, Function.comp_def]

end SpeedMap

/-- What marker data is accepted is what it was. -/
theorem marking_ok_iff {α β : Type} {r : Except (MarkerError α) β} {b : β} :
    marking r = .ok b ↔ r = .ok b := by
  cases r with
  | error cause => exact ⟨(fun h => nomatch h), fun h => nomatch h⟩
  | ok b' => exact ⟨fun h => congrArg Except.ok (Except.ok.inj h), fun h => congrArg marking h⟩

namespace Pair

variable {α : Type} [Scalar α]

/-- A pair that was created with one speed, put together of a map, or read. -/
inductive Built : Pair α → Prop
  | make {start stop speed : α} {crop : Crop} {p : Pair α} :
      make start stop speed crop = .ok p → Built p
  | ofMap {points : List (SpeedPoint α)} {map : SpeedMap α} (crop : Crop) :
      SpeedMap.ofList points = .ok map → Built (.ofMap map crop)
  | read {medium : Medium} {v : Source} {p : Pair α} : read medium v = .ok p → Built p

/-- A pair after an edit, done or refused. -/
def after (p : Pair α) (e : PairEdit α) : Pair α :=
  InPlace.left (edit e p)

/-- A pair after a run of edits. -/
def run (p : Pair α) (es : List (PairEdit α)) : Pair α :=
  es.foldl after p

variable [OrderedScalar α]

theorem make_sound {start stop speed : α} {crop : Crop} {p : Pair α}
    (h : make start stop speed crop = .ok p) : p.map.Sound := by
  unfold make at h
  split at h
  · cases h
  · rcases bind_ok_iff.mp h with ⟨_, -, h⟩
    rcases bind_ok_iff.mp h with ⟨map, hmap, h⟩
    cases h
    exact (SpeedMap.ofList_eq_ok hmap).2

theorem mapOfRecord_sound {r : PairRecord α} {m : SpeedMap α} (h : mapOfRecord r = .ok m) :
    m.Sound := by
  unfold mapOfRecord at h
  split at h
  · rcases bind_ok_iff.mp h with ⟨ps, -, h⟩
    exact (SpeedMap.ofList_eq_ok h).2
  · rcases bind_ok_iff.mp h with ⟨_, -, h⟩
    split at h
    · cases h
    · exact (SpeedMap.ofList_eq_ok h).2

theorem ofRecord_sound {r : PairRecord α} {p : Pair α} (h : ofRecord r = .ok p) :
    p.map.Sound := by
  rcases bind_ok_iff.mp h with ⟨m, hm, h⟩
  cases h
  exact mapOfRecord_sound hm

/-- However a pair came about, its map is sound. -/
theorem Built.sound {p : Pair α} (h : Built p) : p.map.Sound := by
  cases h with
  | make h => exact make_sound h
  | ofMap crop h => exact (SpeedMap.ofList_eq_ok h).2
  | read h =>
      rcases bind_ok_iff.mp h with ⟨r, -, h⟩
      exact ofRecord_sound (marking_ok_iff.mp h)

/-- An edit keeps the map of a pair sound. -/
theorem after_sound {p : Pair α} (hp : p.map.Sound) (e : PairEdit α) : (p.after e).map.Sound := by
  unfold after
  cases hr : edit e p with
  | error cause q =>
      have hq : q = p := edit_atomic e hr
      change q.map.Sound
      rw [hq]
      exact hp
  | ok side q =>
      change q.map.Sound
      cases e with
      | move s time =>
          rcases move_eq_ok (InPlace.update_return_eq_ok.mp hr).1 with ⟨hadmits, rfl⟩
          exact hp.cut hadmits
      | undo =>
          cases hundo : p.moves.undo with
          | nil => rw [edit, takeBack_nil hundo] at hr; cases hr; exact hp
          | cons r rs =>
              rw [edit, takeBack_eq hundo] at hr
              cases hm : p.map.restoreBoundary r.side r.source r.dropped with
              | error cause => rw [hm] at hr; cases hr
              | ok m =>
                  rw [hm] at hr
                  cases hr
                  -- A map that is put back was checked.
                  rcases SpeedMap.restoreBoundary_eq_ok_iff.mp hm with ⟨hflaw, rfl⟩
                  exact (SpeedMap.flaw?_eq_none_iff _).mp hflaw
      | redo =>
          cases hredo : p.moves.redo with
          | nil => rw [edit, makeAgain_nil hredo] at hr; cases hr; exact hp
          | cons r rs =>
              rw [edit, makeAgain_eq hredo] at hr
              cases hm : p.map.moveBoundary r.side r.target with
              | error cause => rw [hm] at hr; cases hr
              | ok moved =>
                  rcases moved with ⟨m, dropped⟩
                  rw [hm] at hr
                  cases hr
                  -- A move that is made again is made like a new one.
                  rcases SpeedMap.moveBoundary_eq_ok_iff.mp hm with ⟨hadmits, hcut⟩
                  have hsound := hp.cut hadmits
                  rw [hcut] at hsound
                  exact hsound
      | setSpeed speed =>
          rcases setSpeed_eq_ok (InPlace.update_return_eq_ok.mp hr).1 with ⟨m, hm, rfl⟩
          exact (SpeedMap.setSpeed_spec hm).2 hp
      | replaceMap map =>
          rcases replaceMap_eq_ok (InPlace.update_return_eq_ok.mp hr).1 with ⟨hflaw, rfl⟩
          exact (SpeedMap.flaw?_eq_none_iff _).mp hflaw

/-- A run of edits keeps the map of a pair sound. -/
theorem run_sound {p : Pair α} (hp : p.map.Sound) (es : List (PairEdit α)) :
    (p.run es).map.Sound := by
  induction es generalizing p with
  | nil => exact hp
  | cons e es ih => exact ih (after_sound hp e)

end Pair

/-- However a pair came about, and after any run of edits of it, done or
    refused, its map has two points at least, with finite times that never go
    down and end after they began, and with positive and finite speeds. So the
    map is accepted as it is, also with its speeds in reverse, from where it
    reverses back. A boundary that may be moved goes on to keep both ends. There
    is always a map to export and a timing of the clip, and the duration of a
    clip finds its first point, its last point and its last segment. -/
theorem edits_keep_maps_sound (p : Pair Float) (hp : p.Built) (es : List (PairEdit Float)) :
    let q := p.run es
    let m := q.map
    (2 ≤ m.points.length ∧
      (∀ x ∈ m.points, x.time.isFinite = true ∧ x.speed.isFinite = true ∧ 0.0 < x.speed) ∧
      (m.points.Pairwise fun x y => x.time ≤ y.time) ∧ m.start < m.stop) ∧
    (m.validate = .ok () ∧ m.reversed.validate = .ok () ∧ m.reversed.reversed = m) ∧
    (∀ side time, m.admits side time = true →
      ((m.cut side time).1.points, (m.cut side time).2) = SpeedMap.parted side time m.points) ∧
    ((∀ speedMaps, ∃ n, q.effectiveMap speedMaps = .ok n) ∧ ∀ r g, ∃ t, q.timing r g = .ok t) ∧
    m.points[0]? = some m.first ∧ m.points[m.points.length - 1]? = some m.last ∧
      m.points.length - 2 + 1 = m.segments.length := by
  intro q m
  -- All that is said of the map follows from its being sound.
  have hm : m.Sound := Pair.run_sound hp.sound es
  have hlength := m.length_points
  refine ⟨⟨?_, fun x hx => ?_, hm.sorted, hm.start_lt_stop⟩,
    ⟨(SpeedMap.validate_eq_ok_iff m).mpr hm, (SpeedMap.validate_eq_ok_iff _).mpr hm.reversed,
      m.reversed_reversed⟩,
    fun side time h => SpeedMap.partition_points hm h, ⟨fun speedMaps => ?_, fun r g => ?_⟩,
    rfl, m.getElem?_last, ?_⟩
  · omega
  · have hspeed := hm.speed x hx
    rw [Scalar.isPositive, Bool.and_eq_true, decide_eq_true_iff] at hspeed
    exact ⟨hm.finite x hx, hspeed⟩
  · rcases Pair.effectiveMap_eq_ok hm speedMaps with ⟨n, hn, -⟩
    exact ⟨n, hn⟩
  · rcases Pair.effectiveMap_eq_ok hm r.speedMaps with ⟨n, hn, -⟩
    rcases Pair.timing_of_map hn g with ⟨t, ht, -⟩
    exact ⟨t, ht⟩
  · rw [m.length_segments]
    omega

/-- A map of three points, the last two a hair apart. -/
def hairpin : SpeedMap Float :=
  ⟨⟨0.0, 1.0⟩, [⟨1.9999999, 4.0⟩], ⟨2.0, 2.0⟩⟩

/-- A run with a move to nowhere, a move, a change of speed, the move taken back
    and a map without a span. -/
theorem edits_keep_maps_sound_hairpin :
    (Pair.ofMap hairpin .full).Built ∧
      ((Pair.ofMap hairpin .full).run [.move .start (0.0 / 0.0), .move .stop 1.5, .setSpeed 3.0,
        .undo, .replaceMap ⟨⟨0.0, 1.0⟩, [], ⟨0.0, 1.0⟩⟩]).map.validate = .ok () := by
  have hread : SpeedMap.ofList hairpin.points = .ok hairpin := rfl
  exact ⟨.ofMap .full hread, (edits_keep_maps_sound _ (.ofMap .full hread) _).2.1.1⟩

end Retime
