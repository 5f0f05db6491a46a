import Retime.Proofs.SoundEdits

/-!
# What a Boundary Move Keeps

Which points are left of a map after one of its ends was moved, and after both
were.

A move looks at one side only: at the new start it asks whether a point is
before it, and at the new end whether a point is behind it. Nothing has to be
asked at the other end, since the points between were inside to begin with. So
what is kept can be said without the side: it is what lies in the span of the
map that the move leaves, and what is dropped is the rest.

A point that is dropped at the start is before the end, wherever the end is
moved to, as long as it is moved behind the start. So neither move drops a point
that is the business of the other, and it does not matter which comes first.
Whether both are accepted does depend on the order: a move that passes the other
end is refused, unless the other end was moved out of the way before.

## Main definitions

* `SpeedMap.spans`: A point lies between the ends of a map.
* `SpeedMap.moveBoth`: One end is moved and then the other.

## Theorems

* `SpeedMap.moveBoundary_accepted_iff`: When a move is accepted.
* `SpeedMap.Sound.inner_cut`: A move keeps the points in the span that it leaves.
* `SpeedMap.Sound.cut_cut`: The moves of the two ends commute.
* `SpeedMap.Sound.moveBoth_accepted_iff`: When both orders are accepted.
* `boundary_moves_keep_span`: What a move keeps, what it drops, and that the two
  orders agree.
-/

namespace Retime

namespace SpeedMap

variable {α : Type} [Scalar α]

/-- A point lies between the ends of a map, or at the time of one. -/
def spans (m : SpeedMap α) (p : SpeedPoint α) : Bool :=
  decide (m.start ≤ p.time) && decide (p.time ≤ m.stop)

/-- Moves one end of a map and then the other. The points that either move
    drops are returned apart. -/
def moveBoth (side : Side) (time other : α) (m : SpeedMap α) :
    Except (MarkerError α) (SpeedMap α × List (SpeedPoint α) × List (SpeedPoint α)) := do
  let (m, dropped) ← m.moveBoundary side time
  let (m, further) ← m.moveBoundary side.opposite other
  return (m, dropped, further)

theorem moveBoundary_accepted_iff {m : SpeedMap α} {side : Side} {time : α} :
    (∃ n dropped, m.moveBoundary side time = .ok (n, dropped)) ↔ m.admits side time = true := by
  constructor
  · rintro ⟨n, dropped, h⟩
    exact (moveBoundary_eq_ok_iff.mp h).1
  · intro h
    exact ⟨_, _, moveBoundary_eq_ok_iff.mpr ⟨h, rfl⟩⟩

/-- The second move is one of the map that the first has left. -/
theorem moveBoth_eq_ok_iff {m n : SpeedMap α} {side : Side} {time other : α}
    {dropped further : List (SpeedPoint α)} :
    m.moveBoth side time other = .ok (n, dropped, further) ↔
      (m.admits side time = true ∧ (m.cut side time).1.admits side.opposite other = true) ∧
        (m.cut side time).2 = dropped ∧
          (m.cut side time).1.cut side.opposite other = (n, further) := by
  unfold moveBoth
  constructor
  · intro h
    rcases bind_ok_iff.mp h with ⟨⟨k, dropped'⟩, hfirst, h⟩
    -- The second move is asked of the map that the first one has cut.
    rcases bind_ok_iff.mp h with ⟨⟨n', further'⟩, hsecond, h⟩
    cases h
    rcases moveBoundary_eq_ok_iff.mp hfirst with ⟨hadmits, hcut⟩
    rcases moveBoundary_eq_ok_iff.mp hsecond with ⟨hadmits', hcut'⟩
    rw [hcut]
    exact ⟨⟨hadmits, hadmits'⟩, rfl, hcut'⟩
  · rintro ⟨⟨hadmits, hadmits'⟩, rfl, hcut⟩
    exact bind_ok_iff.mpr ⟨_, moveBoundary_eq_ok_iff.mpr ⟨hadmits, rfl⟩,
      bind_ok_iff.mpr ⟨_, moveBoundary_eq_ok_iff.mpr ⟨hadmits', hcut⟩, rfl⟩⟩

/-- A move takes one end to its new time and leaves the other, and neither of
    them changes its speed. -/
theorem cut_ends (m : SpeedMap α) (side : Side) (time : α) :
    ((m.cut side time).1.boundary side = time ∧
      (m.cut side time).1.boundary side.opposite = m.boundary side.opposite) ∧
    (m.cut side time).1.first.speed = m.first.speed ∧
      (m.cut side time).1.last.speed = m.last.speed := by
  cases side with
  | start => exact ⟨⟨rfl, rfl⟩, rfl, rfl⟩
  | stop => exact ⟨⟨rfl, rfl⟩, rfl, rfl⟩

variable {m : SpeedMap α}

/-- What a move keeps between the ends is what lies in the span that it leaves,
    and what it drops is the rest. -/
theorem Sound.inner_cut (hm : m.Sound) (side : Side) (time : α) :
    (m.cut side time).1.inner = m.inner.filter (m.cut side time).1.spans ∧
      (m.cut side time).2 = m.inner.filter fun p => !(m.cut side time).1.spans p := by
  rcases hm.parts with ⟨hafter, -, -, hbefore⟩
  -- At the end that stays, every point was inside before.
  cases side with
  | start =>
      have hspans : ∀ p ∈ m.inner, (m.cut .start time).1.spans p = decide (time ≤ p.time) := by
        intro p hp
        change (decide (time ≤ p.time) && decide (p.time ≤ m.stop)) = decide (time ≤ p.time)
        rw [decide_eq_true (hbefore p hp), Bool.and_true]
      rw [List.filter_congr hspans, List.filter_congr fun p hp => congrArg not (hspans p hp),
        cut_start]
      exact ⟨rfl, rfl⟩
  | stop =>
      have hspans : ∀ p ∈ m.inner, (m.cut .stop time).1.spans p = decide (p.time ≤ time) := by
        intro p hp
        change (decide (m.start ≤ p.time) && decide (p.time ≤ time)) = decide (p.time ≤ time)
        rw [decide_eq_true (hafter p hp), Bool.true_and]
      rw [List.filter_congr hspans, List.filter_congr fun p hp => congrArg not (hspans p hp),
        cut_stop]
      exact ⟨rfl, rfl⟩

variable [OrderedScalar α]

/-- A boundary may be moved to any time that is a number on its side of the
    other end. -/
theorem Sound.admits_iff_lt (hm : m.Sound) (side : Side) (time : α) :
    m.admits side time = true ↔ Scalar.isFinite time = true ∧
      match side with
      | .start => time < m.stop
      | .stop => m.start < time := by
  rw [admits_iff]
  refine and_congr_right fun htime => ?_
  cases side with
  | start => exact not_iff_comm.mp (OrderedScalar.not_lt htime hm.finite_stop)
  | stop => exact not_iff_comm.mp (OrderedScalar.not_lt hm.finite_start htime)

/-- What a move keeps and what it drops stand side by side in the map. -/
theorem Sound.dropped_cut (hm : m.Sound) (side : Side) (time : α) :
    m.inner = match side with
      | .start => (m.cut side time).2 ++ (m.cut side time).1.inner
      | .stop => (m.cut side time).1.inner ++ (m.cut side time).2 := by
  have hback := congrArg SpeedMap.inner (extended_cut hm side time)
  cases side with
  | start => exact hback.symm
  | stop => exact hback.symm

/-- The moves of the two ends commute, as long as the start stays before the
    end. -/
theorem Sound.cut_cut (hm : m.Sound) {start stop : α} (hstart : Scalar.isFinite start = true)
    (hstop : Scalar.isFinite stop = true) (h : start ≤ stop) :
    ((m.cut .start start).1.cut .stop stop).1 = ((m.cut .stop stop).1.cut .start start).1 ∧
      (m.cut .start start).2 = ((m.cut .stop stop).1.cut .start start).2 ∧
        ((m.cut .start start).1.cut .stop stop).2 = (m.cut .stop stop).2 := by
  have hfinite := (forall_mem_points.mp hm.finite).2.1
  simp only [cut_start, cut_stop, List.filter_filter]
  refine ⟨?_, List.filter_congr fun p hp => ?_, List.filter_congr fun p hp => ?_⟩
  · simp only [Bool.and_comm]
  -- A point before the new start is before the new end.
  · by_cases hbefore : start ≤ p.time
    · simp [hbefore]
    · have hle := OrderedScalar.le_of_not_le (hfinite p hp) hstart hbefore
      simp [OrderedScalar.trans hle h]
  -- A point behind the new end is behind the new start.
  · by_cases hbehind : p.time ≤ stop
    · simp [hbehind]
    · have hle := OrderedScalar.le_of_not_le hstop (hfinite p hp) hbehind
      simp [OrderedScalar.trans h hle]

/-- Both orders are accepted for any two times in their order that do not reach
    the other ends of the map. -/
theorem Sound.moveBoth_accepted_iff (hm : m.Sound) {start stop : α} :
    ((∃ r, m.moveBoth .start start stop = .ok r) ∧ ∃ r, m.moveBoth .stop stop start = .ok r) ↔
      (Scalar.isFinite start = true ∧ Scalar.isFinite stop = true) ∧
        start < m.stop ∧ m.start < stop ∧ start < stop := by
  -- What is dropped does not matter for whether both are accepted.
  have hboth : ∀ side time other, (∃ r, m.moveBoth side time other = .ok r) ↔
      m.admits side time = true ∧ (m.cut side time).1.admits side.opposite other = true := by
    intro side time other
    constructor
    · rintro ⟨⟨n, dropped, further⟩, hr⟩
      exact (moveBoth_eq_ok_iff.mp hr).1
    · intro hadmits
      exact ⟨(_, _, _), moveBoth_eq_ok_iff.mpr ⟨hadmits, rfl, rfl⟩⟩
  rw [hboth, hboth]
  constructor
  · rintro ⟨⟨hstart, hstop'⟩, hstop, -⟩
    rcases (hm.admits_iff_lt .start start).mp hstart with ⟨hfinite, hlt⟩
    rcases (hm.admits_iff_lt .stop stop).mp hstop with ⟨hfinite', hlt'⟩
    exact ⟨⟨hfinite, hfinite'⟩, hlt, hlt', (((hm.cut hstart).admits_iff_lt .stop stop).mp hstop').2⟩
  · -- After one end has moved, the other is held against where it has moved to.
    rintro ⟨⟨hfinite, hfinite'⟩, hlt, hlt', horder⟩
    have hstart := (hm.admits_iff_lt .start start).mpr ⟨hfinite, hlt⟩
    have hstop := (hm.admits_iff_lt .stop stop).mpr ⟨hfinite', hlt'⟩
    exact ⟨⟨hstart, ((hm.cut hstart).admits_iff_lt .stop stop).mpr ⟨hfinite', horder⟩⟩,
      hstop, ((hm.cut hstop).admits_iff_lt .start start).mpr ⟨hfinite, horder⟩⟩

/-- Two orders that are both accepted come to the same. -/
theorem Sound.moveBoth_comm (hm : m.Sound) {start stop : α} {n k : SpeedMap α}
    {before before' behind behind' : List (SpeedPoint α)}
    (h : m.moveBoth .start start stop = .ok (n, before, behind))
    (h' : m.moveBoth .stop stop start = .ok (k, behind', before')) :
    n = k ∧ before = before' ∧ behind = behind' := by
  rcases hm.moveBoth_accepted_iff.mp ⟨⟨_, h⟩, _, h'⟩ with ⟨⟨hstart, hstop⟩, -, -, horder⟩
  rcases hm.cut_cut hstart hstop (OrderedScalar.le_of_lt horder) with ⟨hmap, hbefore, hbehind⟩
  rcases moveBoth_eq_ok_iff.mp h with ⟨-, hfirst, hsecond⟩
  rcases moveBoth_eq_ok_iff.mp h' with ⟨-, hfirst', hsecond'⟩
  -- Both orders cut the same map, which the cuts leave the same.
  change (m.cut .start start).1.cut .stop stop = (n, behind) at hsecond
  change (m.cut .stop stop).1.cut .start start = (k, before') at hsecond'
  rw [hsecond, hsecond'] at hmap
  rw [hfirst, hsecond'] at hbefore
  rw [hsecond, hfirst'] at hbehind
  exact ⟨hmap, hbefore, hbehind⟩

end SpeedMap

/-- An end of a map may be moved to just those times that are numbers and lie on
    its side of the other end. It is then at that time, the other end is where
    it was, and both have their speeds. Of the points between, the map keeps
    those in its new span, both ends of the span counted in, and the others are
    returned; put side by side again, the two are the row of points that there
    was. The same comes of asking all points of the row, the end that was moved
    among them, on which side of the new time they are. If the two ends may be
    moved to two times in either order, then the order makes no difference to
    the map, nor to the points that either of the two moves drops. -/
theorem boundary_moves_keep_span (m : SpeedMap Float) (hm : m.flaw? = none) :
    (∀ side time,
      ((∃ n dropped, m.moveBoundary side time = .ok (n, dropped)) ↔
        time.isFinite = true ∧
          match side with
          | .start => time < m.stop
          | .stop => m.start < time) ∧
      ∀ n dropped, m.moveBoundary side time = .ok (n, dropped) →
        (n.boundary side = time ∧ n.boundary side.opposite = m.boundary side.opposite) ∧
        (n.first.speed = m.first.speed ∧ n.last.speed = m.last.speed) ∧
        (n.inner = m.inner.filter n.spans ∧ dropped = m.inner.filter fun p => !n.spans p) ∧
        (m.inner = match side with
          | .start => dropped ++ n.inner
          | .stop => n.inner ++ dropped) ∧
        (n.points, dropped) = SpeedMap.parted side time m.points) ∧
    ∀ start stop,
      (((∃ r, m.moveBoth .start start stop = .ok r) ∧ ∃ r, m.moveBoth .stop stop start = .ok r) ↔
        (start.isFinite = true ∧ stop.isFinite = true) ∧
          start < m.stop ∧ m.start < stop ∧ start < stop) ∧
      ∀ n k before before' behind behind',
        m.moveBoth .start start stop = .ok (n, before, behind) →
        m.moveBoth .stop stop start = .ok (k, behind', before') →
        n = k ∧ before = before' ∧ behind = behind' := by
  have hsound := (SpeedMap.flaw?_eq_none_iff m).mp hm
  refine ⟨fun side time => ⟨?_, fun n dropped h => ?_⟩, fun start stop =>
    ⟨hsound.moveBoth_accepted_iff, fun _ _ _ _ _ _ h h' => hsound.moveBoth_comm h h'⟩⟩
  · rw [SpeedMap.moveBoundary_accepted_iff]
    exact hsound.admits_iff_lt side time
  · rcases SpeedMap.moveBoundary_eq_ok_iff.mp h with ⟨hadmits, hcut⟩
    -- One cut gives the ends, the points between, and what was dropped.
    have hends := m.cut_ends side time
    have hinner := hsound.inner_cut side time
    have hrow := hsound.dropped_cut side time
    have hparted := SpeedMap.partition_points hsound hadmits
    rw [hcut] at hends hinner hrow hparted
    exact ⟨hends.1, hends.2, hinner, hrow, hparted⟩

/-- A map with two points at each of two times. -/
def crowded : SpeedMap Float :=
  ⟨⟨0.0, 1.0⟩, [⟨1.0, 2.0⟩, ⟨1.0, 3.0⟩, ⟨2.0, 0.5⟩, ⟨2.0, 4.0⟩], ⟨3.0, 1.0⟩⟩

/-- A start that is moved onto two points keeps both, and an end that is moved
    between the two times drops the later points, before or after that. -/
theorem boundary_moves_keep_span_crowded :
    crowded.flaw? = none ∧
      (∃ n, crowded.moveBoundary .start 1.0 = .ok (n, []) ∧ n.inner = crowded.inner) ∧
      ∃ n before behind, crowded.moveBoth .start 1.0 1.5 = .ok (n, before, behind) ∧
        crowded.moveBoth .stop 1.5 1.0 = .ok (n, behind, before) := by
  have hflaw : crowded.flaw? = none := rfl
  rcases boundary_moves_keep_span crowded hflaw with ⟨hmoves, hboth⟩
  refine ⟨hflaw, ?_, ?_⟩
  · rcases hmoves .start 1.0 with ⟨haccepted, hkept⟩
    rcases haccepted.mpr ⟨rfl, by decide⟩ with ⟨n, dropped, h⟩
    rcases hkept n dropped h with ⟨⟨hstart, hstop⟩, -, ⟨-, hdropped⟩, hrow, -⟩
    -- The new span is from one to three, both of which count as inside.
    have hspans : n.spans = fun p => decide ((1.0 : Float) ≤ p.time) && decide (p.time ≤ 3.0) := by
      change n.start = 1.0 at hstart
      change n.stop = 3.0 at hstop
      funext p
      rw [SpeedMap.spans, hstart, hstop]
    have hnone : dropped = [] := by
      rw [hdropped, hspans]
      rfl
    subst hnone
    exact ⟨n, h, hrow.symm⟩
  · rcases hboth 1.0 1.5 with ⟨haccepted, hsame⟩
    rcases haccepted.mpr (by decide) with ⟨⟨⟨n, before, behind⟩, h⟩, ⟨k, behind', before'⟩, h'⟩
    rcases hsame _ _ _ _ _ _ h h' with ⟨rfl, rfl, rfl⟩
    exact ⟨_, _, _, h, h'⟩

end Retime
