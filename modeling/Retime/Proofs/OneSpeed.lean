import Retime.Proofs.PlayRate
import Retime.Proofs.StoredPairs
import Retime.Speed.Sample

/-!
# Clips of One Speed

A clip of one speed needs no more than two points.

A map of one speed is not saved. Its points may be many, some of them at the same
time, and what comes back has only the ends. In exact arithmetic both clips take
the same time: the sections meet, so their lengths add up to what is covered of
the source, and all of them are divided by one speed. It does not matter that
some sections are passed over and that the last may run backwards.

The sampler comes to the same speed by two ways. A map of two points is not looked
at any further, and in a map of more the segment that holds the time has to be
found. There is one, even if the points between the ends were not in order: going
through them, the first that is not before the time ends a segment that holds it.

## Main definitions

* `SpeedMap.Level`: All points of a map have one speed.

## Theorems

* `SpeedMap.exists_segment`: A time between the ends of a map lies in a segment.
* `SpeedMap.Level.sample_eq`: It is sampled to the one speed that there is.
* `FrameGrid.rawTotal_level`: What is covered is played at the one speed.
* `FrameGrid.playTime_plain`: A clip of one speed needs no more than two points.
* `collapse_unseen`: What comes back of a clip of one speed plays as before.
-/

namespace Retime

namespace SpeedMap

variable {α : Type}

/-- All points of a map have one speed. -/
def Level (m : SpeedMap α) (speed : α) : Prop :=
  ∀ p ∈ m.points, p.speed = speed

theorem level_plain (start stop speed : α) : (plain start stop speed).Level speed :=
  forall_mem_points.mpr ⟨rfl, (fun _ hp => nomatch hp), rfl⟩

variable [Scalar α] {m : SpeedMap α} {speed : α}

/-- The one speed of a sound map is one that a map can have. -/
theorem Level.isPositive (h : m.Level speed) (hm : m.Sound) : Scalar.isPositive speed = true := by
  rw [← h _ List.mem_cons_self]
  exact hm.speed _ List.mem_cons_self

/-- Where all speeds are one, none changes, provided that it is itself. -/
theorem Level.isVariable_eq_false (h : m.Level speed) (hself : (speed == speed) = true) :
    m.isVariable = false := by
  refine List.any_eq_false.mpr fun s hs => ?_
  rcases mem_points_of_mem_segments hs with ⟨hleft, hright⟩
  change ¬ (!(s.1.speed == s.2.speed)) = true
  rw [h _ hleft, h _ hright, hself]
  exact Bool.false_ne_true

/-- Where neighbours are the same if they compare as equal, and no speed changes, all
    speeds are that of the start. -/
theorem level_of_isVariable_eq_false
    (heq : ∀ left right, (left, right) ∈ m.segments → (left.speed == right.speed) = true →
      left.speed = right.speed) (h : m.isVariable = false) : m.Level m.first.speed := by
  have hsegments : ∀ s ∈ m.points.zip m.points.tail, s.1.speed = s.2.speed := by
    rintro ⟨left, right⟩ hs
    refine heq left right hs ?_
    have hsame : ¬ (!(left.speed == right.speed)) = true :=
      List.any_eq_false.mp h (left, right) hs
    rwa [Bool.not_eq_true, Bool.not_eq_false'] at hsame
  -- Neighbours have the same speed, so all points do.
  have hpairs : m.points.Pairwise fun p q => p.speed = q.speed :=
    (pairwise_iff_forall_mem_zip_tail (R := fun p q : SpeedPoint α => p.speed = q.speed)
      Eq.trans _).mpr hsegments
  intro p hp
  rcases List.mem_cons.mp hp with rfl | hp
  · rfl
  · exact ((List.pairwise_cons.mp hpairs).1 p hp).symm

/-- A pair of one speed comes back with the two points of its ends. -/
theorem Level.returned_map {p : Pair α} (h : p.map.Level speed)
    (hself : (speed == speed) = true) : p.returned.map = .plain p.start p.stop speed := by
  have hspeed : p.speed = speed := h p.map.first List.mem_cons_self
  have hsame : p.returned.map = .plain p.start p.stop p.speed :=
    if_neg (Bool.eq_false_iff.mp (h.isVariable_eq_false hself))
  rw [hsame, hspeed]

variable [OrderedScalar α] {time : α}

/-- The segment of a row of points that holds a time. -/
theorem exists_segment_of_row {last : SpeedPoint α} {inner : List (SpeedPoint α)}
    (hinner : ∀ p ∈ inner, Scalar.isFinite p.time = true) (htime : Scalar.isFinite time = true)
    (first : SpeedPoint α) (hfirst : first.time ≤ time) (hlast : time ≤ last.time) :
    ∃ s ∈ (first :: (inner ++ [last])).zip (inner ++ [last]),
      s.1.time ≤ time ∧ time ≤ s.2.time := by
  induction inner generalizing first with
  | nil => exact ⟨(first, last), List.mem_cons_self, hfirst, hlast⟩
  | cons p inner ih =>
      rcases List.forall_mem_cons.mp hinner with ⟨hp, hinner⟩
      -- A point that the time is not behind ends the segment, and any other begins the
      -- rest of the row.
      by_cases hle : time ≤ p.time
      · exact ⟨(first, p), List.mem_cons_self, hfirst, hle⟩
      · rcases ih hinner p (OrderedScalar.le_of_not_le hp htime hle) with ⟨s, hs, hholds⟩
        exact ⟨s, List.mem_cons_of_mem _ hs, hholds⟩

/-- A time between the ends of a map lies in a segment. -/
theorem exists_segment (hm : m.Sound) (htime : Scalar.isFinite time = true)
    (hstart : m.start ≤ time) (hstop : time ≤ m.stop) :
    ∃ s ∈ m.segments, s.1.time ≤ time ∧ time ≤ s.2.time :=
  exists_segment_of_row (forall_mem_points.mp hm.finite).2.1 htime m.first hstart hstop

/-- A map of one speed has it at every time between its ends. -/
theorem Level.sample_eq (h : m.Level speed) (hself : (speed == speed) = true) (hm : m.Sound)
    (how : Sampling α) (htime : Scalar.isFinite time = true) (hstart : m.start ≤ time)
    (hstop : time ≤ m.stop) : m.sample how time = speed := by
  unfold sample
  by_cases hplain : m.isPlain = true
  · rw [if_pos hplain]
    exact h _ List.mem_cons_self
  · rw [if_neg hplain]
    rcases exists_segment hm htime hstart hstop with ⟨s, hs, hholds⟩
    split
    · next hmiss => exact absurd (by simpa using hholds) (List.find?_eq_none.mp hmiss s hs)
    · next left right hfind =>
        rcases mem_points_of_mem_segments (List.mem_of_find?_eq_some hfind) with ⟨hleft, hright⟩
        -- Both points have the one speed, so it is taken without being computed.
        have hsame : (left.speed == right.speed) = true := by
          rw [h _ hleft, h _ hright, hself]
        rw [if_pos hsame]
        exact h _ hleft

end SpeedMap

/-! ### Exact arithmetic -/

section Exact

open Exact

/-- Where no speed changes, all speeds are that of the start. -/
theorem SpeedMap.level_of_constant {m : SpeedMap ℝ} (h : m.isVariable = false) :
    m.Level m.first.speed :=
  level_of_isVariable_eq_false (fun left right _ => (beq_iff left.speed right.speed).mp) h

/-- What is covered of the source is played at the one speed. -/
theorem FrameGrid.rawTotal_level (g : FrameGrid ℝ) {m : SpeedMap ℝ} {speed : ℝ} (hm : m.Sound)
    (h : m.Level speed) : (g.breakdown m).rawTotal = g.covered m / speed := by
  have hpos : 0 < speed := (isPositive_iff _).mp (h.isPositive hm)
  -- All speeds lie between the one there is and itself.
  have hwithin : ∀ s ∈ (g.breakdown m).sections, s.Within speed speed :=
    within_of_mem_sections fun p hp => ⟨(h p hp).ge, (h p hp).le⟩
  rcases Section.sum_playTime_bounds hpos hwithin with ⟨hge, hle⟩
  rw [sum_length, sub_self, mul_zero] at hge hle
  rw [Breakdown.rawTotal, sum_eq]
  linarith

/-- A clip of one speed takes as long with the points of its ends alone. -/
theorem FrameGrid.rawTotal_plain_ends (g : FrameGrid ℝ) {m : SpeedMap ℝ} {speed : ℝ}
    (hm : m.Sound) (h : m.Level speed) :
    (g.breakdown (.plain m.start m.stop speed)).rawTotal = (g.breakdown m).rawTotal := by
  have hplain := hm.plain (h.isPositive hm)
  have hcovered : g.covered (.plain m.start m.stop speed) = g.covered m := rfl
  rw [g.rawTotal_level hm h, g.rawTotal_level hplain (SpeedMap.level_plain _ _ _), hcovered]

/-- A clip of one speed needs no more than two points. -/
theorem FrameGrid.playTime_plain (g : FrameGrid ℝ) {m : SpeedMap ℝ} {speed : ℝ} (hm : m.Sound)
    (h : m.Level speed) : g.playTime (.plain m.start m.stop speed) = g.playTime m :=
  congrArg g.heldTime (g.rawTotal_plain_ends hm h)

theorem SpeedMap.onMarkers_exact (m : SpeedMap ℝ) : m.OnMarkers := by
  have hnear : ¬ (Pair.tolerance : ℝ) < 0 := by
    unfold Pair.tolerance
    norm_num
  constructor
  · rwa [sub_self, abs_eq, abs_zero]
  · rwa [sub_self, abs_eq, abs_zero]

end Exact

/-- A pair of one speed comes back from its record with a map of two points, and
    nothing that is played or shown tells the difference. In exact arithmetic its
    clip takes the same time at every rate, before it is brought onto the grid
    and after. In doubles the maps have the same speed at every time from the
    start to the end, however it is looked up. -/
theorem collapse_unseen :
    (∀ (p : Pair ℝ) (speed : ℝ), p.map.flaw? = none → p.map.Level speed →
      ∃ q, Pair.ofRecord p.toRecord = .ok q ∧ q.map = .plain p.start p.stop speed ∧
        ∀ g : FrameGrid ℝ, (g.breakdown q.map).rawTotal = (g.breakdown p.map).rawTotal ∧
          g.playTime q.map = g.playTime p.map) ∧
    ∀ (p : Pair Float) (speed : Float), p.map.flaw? = none → p.map.Level speed →
      ∃ q, Pair.ofRecord p.toRecord = .ok q ∧ q.map = .plain p.start p.stop speed ∧
        ∀ (how : Sampling Float) (time : Float), p.start ≤ time → time ≤ p.stop →
          q.map.sample how time = p.map.sample how time := by
  constructor
  · intro p speed hflaw hlevel
    have hp := (SpeedMap.flaw?_eq_none_iff _).mp hflaw
    have hmap := hlevel.returned_map ((Exact.beq_iff speed speed).mpr rfl)
    refine ⟨p.returned, Pair.ofRecord_toRecord hp (SpeedMap.onMarkers_exact _), hmap, fun g => ?_⟩
    rw [hmap]
    exact ⟨g.rawTotal_plain_ends hp hlevel, g.playTime_plain hp hlevel⟩
  · intro p speed hflaw hlevel
    have hp := (SpeedMap.flaw?_eq_none_iff _).mp hflaw
    have hspeed := hlevel.isPositive hp
    have hself := Double.beq_self (Bool.and_eq_true_iff.mp hspeed).1
    -- A speed is a number, so it is equal to itself in doubles as well.
    have hmap := hlevel.returned_map hself
    refine ⟨p.returned, Pair.ofRecord_toRecord hp hp.onMarkers, hmap,
      fun how time hstart hstop => ?_⟩
    have htime := Double.isFinite_of_between hp.finite_start hp.finite_stop hstart hstop
    rw [hmap, hlevel.sample_eq hself hp how htime hstart hstop]
    exact (SpeedMap.level_plain _ _ _).sample_eq hself (hp.plain hspeed) how htime hstart hstop

/-- A map with two points at one time, between its ends. -/
def doubled : SpeedMap Float :=
  ⟨⟨0.0, 2.0⟩, [⟨1.0, 2.0⟩, ⟨1.0, 2.0⟩], ⟨3.0, 2.0⟩⟩

/-- A clip whose last section runs backwards takes as long without it, and where
    two points share a time the speed is the one that there is. -/
theorem collapse_unseen_backwards :
    ((FrameGrid.breakdown ⟨30⟩ (.plain 0 (102 / 100) 2 : SpeedMap ℝ)).rawTotal =
        (FrameGrid.breakdown ⟨30⟩ (bent 2 2)).rawTotal ∧
      FrameGrid.playTime ⟨30⟩ (.plain 0 (102 / 100) 2 : SpeedMap ℝ) =
        FrameGrid.playTime ⟨30⟩ (bent 2 2)) ∧
    ∃ q, Pair.ofRecord (Pair.ofMap doubled .full).toRecord = .ok q ∧
      q.map.sample ⟨.cubicInOut, 0.3, 2⟩ 1.0 = doubled.sample ⟨.cubicInOut, 0.3, 2⟩ 1.0 := by
  rcases collapse_unseen with ⟨hexact, hdouble⟩
  constructor
  · have hflaw : (bent 2 2).flaw? = none := bent_flaw?_eq_none (by norm_num) (by norm_num)
    have hlevel : (bent 2 2).Level 2 := by
      rintro p hp
      have hmem : p.speed ∈ (bent 2 2).speeds := List.mem_map_of_mem hp
      rw [bent_speeds] at hmem
      simpa using hmem
    rcases hexact (.ofMap (bent 2 2) .full) 2 hflaw hlevel with ⟨q, -, hmap, hsame⟩
    have hsame := hsame ⟨30⟩
    rw [hmap] at hsame
    exact hsame
  · -- Two points share a time, at the same speed.
    have hlevel : doubled.Level 2.0 := by
      refine SpeedMap.forall_mem_points.mpr ⟨rfl, ?_, rfl⟩
      exact List.forall_mem_cons.mpr ⟨rfl, List.forall_mem_singleton.mpr rfl⟩
    rcases hdouble (.ofMap doubled .full) 2.0 (by decide) hlevel with ⟨q, hq, -, hsame⟩
    exact ⟨q, hq, hsame _ _ (by decide) (by decide)⟩

end Retime
