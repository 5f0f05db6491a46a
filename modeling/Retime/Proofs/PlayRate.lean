import Mathlib.Data.Finset.Max
import Retime.Proofs.ClipLength

/-!
# The Rate of Play

How long a clip takes for the source it covers.

A section of a clip takes its length times the mean of the inverse of its
speed, and that mean lies between the inverses of the two speeds at its bounds.
So the time a clip takes lies between the source it covers over its highest
speed and the same over its lowest.

It does if no section runs backwards. Only the last one is cut off at the last
frame. Where the point in front of it comes after that frame, the sections
before it run on past the frame, and the last takes the same piece back, but at
a speed of its own. What the clip gains or loses by this is that piece times
the difference of the inverse speeds at most, and the piece is hardly longer
than a frame.

## Main definitions

* `pace`: The mean of the inverse of a speed that changes evenly.
* `Section.overrun`: How far a section runs backwards.
* `FrameGrid.covered`: The source that a clip covers.

## Theorems

* `pace_bounds`: The mean lies between the inverses.
* `FrameGrid.sum_length`: The sections cover the source up to the last frame.
* `play_between_speeds`: The time of a clip, by its lowest and highest speed.
* `play_outside_speeds`: The time is not always between the two.
-/

namespace Retime

open Exact

/-- The mean of the inverse of a speed that changes evenly from one value to
    another. -/
noncomputable def pace (a b : ℝ) : ℝ :=
  if a = b then 1 / a else (Real.log b - Real.log a) / (b - a)

theorem pace_comm (a b : ℝ) : pace a b = pace b a := by
  unfold pace
  by_cases h : a = b
  · rw [if_pos h, if_pos h.symm, h]
  · rw [if_neg h, if_neg (Ne.symm h), ← neg_div_neg_eq, neg_sub, neg_sub]

/-- The mean of the inverse lies between the inverses of the two speeds. -/
theorem pace_between {a b : ℝ} (ha : 0 < a) (hab : a ≤ b) :
    1 / b ≤ pace a b ∧ pace a b ≤ 1 / a := by
  rcases hab.eq_or_lt with rfl | hlt
  · rw [pace, if_pos rfl]
    exact ⟨le_rfl, le_rfl⟩
  · have hb : 0 < b := ha.trans hlt
    have hratio : 0 < b / a := div_pos hb ha
    have hlog : Real.log b - Real.log a = Real.log (b / a) := (Real.log_div hb.ne' ha.ne').symm
    rw [pace, if_neg hlt.ne, hlog]
    -- The two bounds of the logarithm, at the ratio of the speeds.
    constructor
    · rw [le_div_iff₀ (sub_pos.mpr hlt)]
      calc 1 / b * (b - a) = 1 - (b / a)⁻¹ := by rw [inv_div]; field_simp
        _ ≤ Real.log (b / a) := Real.one_sub_inv_le_log_of_pos hratio
    · rw [div_le_iff₀ (sub_pos.mpr hlt)]
      calc Real.log (b / a) ≤ b / a - 1 := Real.log_le_sub_one_of_pos hratio
        _ = 1 / a * (b - a) := by field_simp

/-- It lies between the inverses of any two bounds of the speeds as well. -/
theorem pace_bounds {lo hi a b : ℝ} (hlo : 0 < lo) (ha : lo ≤ a ∧ a ≤ hi) (hb : lo ≤ b ∧ b ≤ hi) :
    1 / hi ≤ pace a b ∧ pace a b ≤ 1 / lo := by
  -- The pace does not depend on which speed comes first, so the smaller one may.
  have hbounds : ∀ {x y : ℝ}, lo ≤ x → x ≤ y → y ≤ hi →
      1 / hi ≤ pace x y ∧ pace x y ≤ 1 / lo := by
    intro x y hx hxy hy
    have hpos : 0 < x := hlo.trans_le hx
    rcases pace_between hpos hxy with ⟨hge, hle⟩
    exact ⟨(one_div_le_one_div_of_le (hpos.trans_le hxy) hy).trans hge,
      hle.trans (one_div_le_one_div_of_le hlo hx)⟩
  rcases le_total a b with h | h
  · exact hbounds ha.1 h hb.2
  · rw [pace_comm]
    exact hbounds hb.1 h ha.2

namespace Section

/-- The time that a section takes is its length at its pace. -/
theorem playTime_eq_pace (s : Section ℝ) :
    s.playTime = s.length * pace s.left.speed s.right.speed := by
  rw [playTime_eq, pace]
  by_cases h : s.left.speed = s.right.speed
  · rw [if_pos h, if_pos h, mul_one_div]
  · rw [if_neg h, if_neg h, div_mul_eq_mul_div, mul_div_assoc]

/-- How far a section runs backwards. -/
noncomputable def overrun (s : Section ℝ) : ℝ :=
  max 0 (-s.length)

theorem overrun_eq_zero {s : Section ℝ} (h : 0 ≤ s.length) : s.overrun = 0 :=
  max_eq_left (neg_nonpos.mpr h)

/-- Both speeds of a section lie between two bounds. -/
structure Within (lo hi : ℝ) (s : Section ℝ) : Prop where
  left : lo ≤ s.left.speed ∧ s.left.speed ≤ hi
  right : lo ≤ s.right.speed ∧ s.right.speed ≤ hi

theorem playTime_bounds {lo hi : ℝ} (hlo : 0 < lo) {s : Section ℝ} (hs : s.Within lo hi) :
    s.length / hi - s.overrun * (1 / lo - 1 / hi) ≤ s.playTime ∧
      s.playTime ≤ s.length / lo + s.overrun * (1 / lo - 1 / hi) := by
  rcases pace_bounds hlo hs.left hs.right with ⟨hge, hle⟩
  rw [playTime_eq_pace, div_eq_mul_one_div s.length hi, div_eq_mul_one_div s.length lo]
  rcases le_total 0 s.length with h | h
  · have hfast := mul_le_mul_of_nonneg_left hge h
    have hslow := mul_le_mul_of_nonneg_left hle h
    rw [overrun_eq_zero h]
    exact ⟨by linarith, by linarith⟩
  -- Backwards the two bounds change places, and the overrun makes up for it.
  · have hfast := mul_le_mul_of_nonpos_left hge h
    have hslow := mul_le_mul_of_nonpos_left hle h
    rw [overrun, max_eq_right (neg_nonneg.mpr h)]
    exact ⟨by linarith, by linarith⟩

/-- What holds of the time of each section holds of the sum. -/
theorem sum_playTime_bounds {lo hi : ℝ} (hlo : 0 < lo) {ss : List (Section ℝ)}
    (h : ∀ s ∈ ss, s.Within lo hi) :
    (ss.map length).sum / hi - (ss.map overrun).sum * (1 / lo - 1 / hi) ≤
        (ss.map playTime).sum ∧
      (ss.map playTime).sum ≤
        (ss.map length).sum / lo + (ss.map overrun).sum * (1 / lo - 1 / hi) := by
  -- The bounds of the sections are added up, one after the other.
  induction ss with
  | nil => simp
  | cons s ss ih =>
      rcases List.forall_mem_cons.mp h with ⟨hs, hss⟩
      rcases playTime_bounds hlo hs with ⟨hge, hle⟩
      rcases ih hss with ⟨ihge, ihle⟩
      simp only [List.map_cons, List.sum_cons, add_div, add_mul]
      exact ⟨by linarith, by linarith⟩

end Section

namespace FrameGrid

/-- The time of the source from the start of a map to the last frame of its
    clip, which the engine rounds. -/
noncomputable def covered (g : FrameGrid ℝ) (m : SpeedMap ℝ) : ℝ :=
  g.lastUpper m + (g.breakdown m).startTrim

/-- The rounding is all that is between them. -/
theorem abs_covered_sub_le (g : FrameGrid ℝ) (m : SpeedMap ℝ) :
    |g.covered m - (g.lastFrameBefore m.stop - m.start)| ≤ 5e-7 := by
  have hround := abs_roundTo_sub_le 6 (g.fromFirst m (g.lastFrameBefore m.stop))
  have hcovered : g.covered m - (g.lastFrameBefore m.stop - m.start) =
      g.lastUpper m - g.fromFirst m (g.lastFrameBefore m.stop) := by
    change g.lastUpper m + (g.breakdown m).startTrim - (g.lastFrameBefore m.stop - m.start) =
      g.lastUpper m - (g.lastFrameBefore m.stop - m.start - (g.breakdown m).startTrim)
    ring
  rw [hcovered]
  refine hround.trans ?_
  norm_num

/-- The sections of a row of points reach without a gap from the first point
    to the bound of the last section. -/
theorem sum_length_tiles (f : ℝ → ℝ) (u : ℝ) (last : SpeedPoint ℝ)
    (inner : List (SpeedPoint ℝ)) (first : SpeedPoint ℝ) :
    ((tiles f u last inner first).map Section.length).sum = u - f first.time := by
  induction inner generalizing first with
  | nil => exact add_zero _
  | cons p inner ih =>
      refine (congrArg (f p.time - f first.time + ·) (ih p)).trans ?_
      ring

theorem sum_length (g : FrameGrid ℝ) (m : SpeedMap ℝ) :
    ((g.breakdown m).sections.map Section.length).sum = g.covered m := by
  rw [sections_eq_tiles, sum_length_tiles]
  change g.lastUpper m - (m.start - m.start - (g.breakdown m).startTrim) = g.covered m
  rw [covered]
  ring

/-- Only the last section runs backwards. -/
theorem sum_overrun (g : FrameGrid ℝ) {m : SpeedMap ℝ} (hm : m.Sound) :
    ((g.breakdown m).sections.map Section.overrun).sum = (g.lastSection m).overrun := by
  rcases g.sections_eq m with ⟨segs, hsegs, heq⟩
  -- The points are in order, so every section but the last has a length that is not negative.
  have hnone : ∀ v ∈ segs.map (fun seg => (g.sectionOf m seg).overrun), v = 0 := by
    rw [List.forall_mem_map]
    intro seg hseg
    have horder := (SpeedMap.sorted_iff_segments hm.finite).mp hm.sorted seg (hsegs seg hseg)
    refine Section.overrun_eq_zero ?_
    rw [sectionOf_length]
    exact sub_nonneg.mpr (not_lt.mp horder)
  rw [heq, List.map_append, List.map_map, List.sum_append]
  change (segs.map fun seg => (g.sectionOf m seg).overrun).sum + ((g.lastSection m).overrun + 0) = _
  rw [List.sum_eq_zero hnone, zero_add, add_zero]

/-- The last section runs back less than a frame and a little. -/
theorem overrun_lt {g : FrameGrid ℝ} (hg : 0 < g.rate) {m : SpeedMap ℝ} (hm : m.Sound) :
    (g.lastSection m).overrun < (1 + 1e-9) / g.rate + 1e-6 := by
  have hlast := lastFrameBefore_gt hg m.stop
  have hcovered := (abs_le.mp (g.abs_covered_sub_le m)).1
  -- The heel is not behind the end, and the last frame is about one frame before it.
  have hheel : m.heel.time ≤ m.stop := by
    have hmem : m.heel ∈ m.first :: m.inner := List.getLast_mem _
    rcases List.mem_cons.mp hmem with h | h
    · rw [h]
      exact hm.parts.2.1
    · exact hm.parts.2.2.2 _ h
  have hlength : (g.lastSection m).length = g.covered m - (m.heel.time - m.start) := by
    change g.lastUpper m - (m.heel.time - m.start - (g.breakdown m).startTrim) = _
    rw [covered]
    ring
  have hframe : 0 < (1 + 1e-9) / g.rate := div_pos (by norm_num) hg
  rw [Section.overrun, hlength]
  refine max_lt ?_ ?_
  · linarith
  · norm_num at hlast hcovered hframe ⊢
    linarith

theorem within_of_mem_sections {g : FrameGrid ℝ} {m : SpeedMap ℝ} {lo hi : ℝ}
    (h : ∀ p ∈ m.points, lo ≤ p.speed ∧ p.speed ≤ hi) :
    ∀ s ∈ (g.breakdown m).sections, s.Within lo hi := by
  intro s hs
  rcases points_of_mem_sections hs with ⟨hleft, hright⟩
  exact ⟨h _ hleft, h _ hright⟩

end FrameGrid

/-- A map has a lowest and a highest speed. -/
theorem SpeedMap.exists_speed_bounds (m : SpeedMap ℝ) :
    ∃ slow fast, IsLeast {v | v ∈ m.speeds} slow ∧ IsGreatest {v | v ∈ m.speeds} fast := by
  have hne : m.speeds.toFinset.Nonempty :=
    ⟨m.first.speed, List.mem_toFinset.mpr List.mem_cons_self⟩
  rw [← List.coe_toFinset]
  exact ⟨_, _, Finset.isLeast_min' _ hne, Finset.isGreatest_max' _ hne⟩

/-- For the source it covers, a clip takes the time between that at its highest
    and that at its lowest speed, give or take what its last section runs
    backwards at the difference of the two. That is nothing if the last segment
    lasts a frame and a little, and never more than so long. -/
theorem play_between_speeds (rate : ℝ) (g : FrameGrid ℝ) (hg : FrameGrid.ofRate rate = .ok g)
    (m : SpeedMap ℝ) (hm : m.flaw? = none) :
    let raw := (g.breakdown m).rawTotal
    let covered := g.covered m
    let back := (g.lastSection m).overrun
    |covered - (g.lastFrameBefore m.stop - m.start)| ≤ 5e-7 ∧
    (∃ slow fast, IsLeast {v | v ∈ m.speeds} slow ∧ IsGreatest {v | v ∈ m.speeds} fast ∧
      (0 ≤ (g.lastSection m).length →
        0 ≤ covered ∧ covered / fast ≤ raw ∧ raw ≤ covered / slow) ∧
      covered / fast - back * (1 / slow - 1 / fast) ≤ raw ∧
      raw ≤ covered / slow + back * (1 / slow - 1 / fast)) ∧
    ((1 + 1e-9) / rate + 1e-6 ≤ m.lastSpan → 0 ≤ (g.lastSection m).length) ∧
    back < (1 + 1e-9) / rate + 1e-6 := by
  intro raw covered back
  rcases FrameGrid.ofRate_eq_ok hg with ⟨hrate, rfl⟩
  have hsound := (SpeedMap.flaw?_eq_none_iff m).mp hm
  refine ⟨FrameGrid.abs_covered_sub_le _ m, ?_, ?_, FrameGrid.overrun_lt hrate hsound⟩
  · rcases m.exists_speed_bounds with ⟨slow, fast, hslow, hfast⟩
    have hmem : ∀ p ∈ m.points, p.speed ∈ m.speeds := fun p hp => List.mem_map_of_mem hp
    have hpos : 0 < slow := by
      rcases List.mem_map.mp hslow.1 with ⟨p, hp, heq⟩
      rw [← heq]
      exact (isPositive_iff _).mp (hsound.speed p hp)
    have hwithin := FrameGrid.within_of_mem_sections (g := ⟨rate⟩)
      fun p hp => ⟨hslow.2 (hmem p hp), hfast.2 (hmem p hp)⟩
    have hraw : raw = (((FrameGrid.mk rate).breakdown m).sections.map Section.playTime).sum :=
      sum_eq _
    have hbounds := Section.sum_playTime_bounds hpos hwithin
    rw [← hraw, FrameGrid.sum_length, FrameGrid.sum_overrun _ hsound] at hbounds
    refine ⟨slow, fast, hslow, hfast, fun hforward => ?_, hbounds⟩
    have hcovered : 0 ≤ covered := by
      change 0 ≤ FrameGrid.covered ⟨rate⟩ m
      rw [← FrameGrid.sum_length]
      exact List.sum_nonneg (List.forall_mem_map.mpr
        (FrameGrid.forward_of_lastSection hsound hforward))
    -- Nothing runs back, so the bounds lose what makes up for it.
    rw [Section.overrun_eq_zero hforward, zero_mul, sub_zero, add_zero] at hbounds
    exact ⟨hcovered, hbounds⟩
  · intro hspan
    have hlast : (FrameGrid.lastSection ⟨rate⟩ m) ∈ ((FrameGrid.mk rate).breakdown m).sections := by
      rcases FrameGrid.sections_eq ⟨rate⟩ m with ⟨segs, -, heq⟩
      rw [heq]
      exact List.mem_append_right _ List.mem_cons_self
    exact FrameGrid.forward_of_lastSpan hrate hsound hspan _ hlast

section Bent

/-- A map whose last segment begins after the last frame of its clip. -/
noncomputable def bent (a b : ℝ) : SpeedMap ℝ :=
  ⟨⟨0, a⟩, [⟨101 / 100, a⟩], ⟨102 / 100, b⟩⟩

theorem bent_speeds (a b : ℝ) : (bent a b).speeds = [a, a, b] := rfl

theorem bent_flaw?_eq_none {a b : ℝ} (ha : 0 < a) (hb : 0 < b) : (bent a b).flaw? = none := by
  refine (SpeedMap.flaw?_eq_none_iff _).mpr (SpeedMap.sound_iff.mpr ⟨fun _ _ => rfl, ?_, ?_, ?_⟩)
  · intro v hv
    rw [isPositive_iff]
    rw [bent_speeds] at hv
    simp only [List.mem_cons, List.not_mem_nil, or_false] at hv
    rcases hv with rfl | rfl | rfl
    · exact ha
    · exact ha
    · exact hb
  · -- The times do not depend on the speeds.
    have htimes : (bent a b).times = [0, 101 / 100, 102 / 100] := rfl
    rw [htimes]
    norm_num
  · change ¬ (102 / 100 : ℝ) ≤ 0
    norm_num

/-- Its clip has thirty frames. -/
theorem bent_lastFrame (a b : ℝ) : FrameGrid.lastFrameBefore ⟨30⟩ (bent a b).stop = 1 := by
  have hnearest : nearest (102 / 100 * 30 : ℝ) = 31 := by
    refine nearest_eq ?_
    rw [abs_lt]
    norm_num
  have hfloor : ⌊(102 / 100 * 30 : ℝ)⌋ = 30 := by
    rw [Int.floor_eq_iff]
    norm_num
  -- The end lies between two frames, more than half way, and is cut to the first of them.
  have hoff : ¬ FrameGrid.isOn (102 / 100 * 30 : ℝ) ((31 : ℤ) : ℝ) = true := by
    rw [FrameGrid.isOn_iff, abs_lt]
    norm_num
  change (if FrameGrid.isOn (102 / 100 * 30 : ℝ) (Scalar.round (102 / 100 * 30)) = true then
      Scalar.round (102 / 100 * 30 : ℝ) / 30 - FrameGrid.step ⟨30⟩
    else
      if (102 / 100 : ℝ) - (⌊(102 / 100 * 30 : ℝ)⌋ : ℝ) / 30 < (1e-10 : ℝ) then
        (⌊(102 / 100 * 30 : ℝ)⌋ : ℝ) / 30 - FrameGrid.step ⟨30⟩
      else (⌊(102 / 100 * 30 : ℝ)⌋ : ℝ) / 30) = 1
  rw [round_eq, hnearest, if_neg hoff, hfloor, if_neg (by norm_num)]
  norm_num

/-- It has a section that runs past the last frame, and one that runs back. -/
theorem bent_sections (a b : ℝ) :
    (FrameGrid.breakdown ⟨30⟩ (bent a b)).sections =
      [⟨⟨0, a⟩, ⟨101 / 100, a⟩, 0, 101 / 100⟩, ⟨⟨101 / 100, a⟩, ⟨102 / 100, b⟩, 101 / 100, 1⟩] := by
  -- The clip begins on a frame, so nothing is cut off at its start.
  have htrim : (FrameGrid.breakdown ⟨30⟩ (bent a b)).startTrim = 0 := by
    change FrameGrid.snapUp ((0 : ℝ) * 30) / 30 - 0 = 0
    rw [zero_mul, snapUp_zero]
    norm_num
  have hshift : ∀ time, FrameGrid.fromFirst ⟨30⟩ (bent a b) time = time := by
    intro time
    rw [FrameGrid.fromFirst, htrim]
    change time - 0 - 0 = time
    ring
  have hupper : FrameGrid.lastUpper ⟨30⟩ (bent a b) = 1 := by
    have hround : Scalar.roundTo (6 : ℕ) (1 : ℝ) = 1 := by
      simpa using roundTo_natCast 6 1
    rw [FrameGrid.lastUpper, bent_lastFrame, hshift]
    exact hround
  change [(⟨⟨0, a⟩, ⟨101 / 100, a⟩, FrameGrid.fromFirst ⟨30⟩ (bent a b) 0,
      FrameGrid.fromFirst ⟨30⟩ (bent a b) (101 / 100)⟩ : Section ℝ),
    ⟨⟨101 / 100, a⟩, ⟨102 / 100, b⟩, FrameGrid.fromFirst ⟨30⟩ (bent a b) (101 / 100),
      FrameGrid.lastUpper ⟨30⟩ (bent a b)⟩] = _
  rw [hshift, hshift, hupper]

theorem bent_rawTotal (a b : ℝ) :
    (FrameGrid.breakdown ⟨30⟩ (bent a b)).rawTotal = 101 / 100 / a - 1 / 100 * pace a b := by
  rw [Breakdown.rawTotal, sum_eq, bent_sections, List.map_cons, List.map_singleton, List.sum_pair,
    Section.playTime_eq_pace, Section.playTime_eq_pace]
  change (101 / 100 - 0) * pace a a + (1 - 101 / 100) * pace a b = _
  rw [pace, if_pos rfl]
  ring

theorem pace_one_hundred : 18 / 10 / 99 ≤ pace 1 100 ∧ pace 1 100 ≤ 18 / 99 := by
  -- The logarithm of a hundred is bounded by way of that of ten.
  have hlog : Real.log 100 = 2 * Real.log 10 := by
    have hsquare : (100 : ℝ) = 10 ^ 2 := by norm_num
    rw [hsquare, Real.log_pow]
    norm_num
  have hle := Real.log_le_sub_one_of_pos (show (0 : ℝ) < 10 by norm_num)
  have hge := Real.one_sub_inv_le_log_of_pos (show (0 : ℝ) < 10 by norm_num)
  have hpace : pace 1 100 = 2 * Real.log 10 / 99 := by
    rw [pace, if_neg (by norm_num), Real.log_one, hlog]
    norm_num
  rw [hpace]
  constructor
  · exact div_le_div_of_nonneg_right (by linarith) (by norm_num)
  · exact div_le_div_of_nonneg_right (by linarith) (by norm_num)

end Bent

/-- A clip with one second to cover whose last section runs backwards. -/
theorem play_between_speeds_bent :
    ∃ g : FrameGrid ℝ, FrameGrid.ofRate 30 = .ok g ∧ (bent 1 100).flaw? = none ∧
      ∃ slow fast, IsLeast {v | v ∈ (bent 1 100).speeds} slow ∧
        IsGreatest {v | v ∈ (bent 1 100).speeds} fast ∧
        (g.breakdown (bent 1 100)).rawTotal ≤ g.covered (bent 1 100) / slow +
          (g.lastSection (bent 1 100)).overrun * (1 / slow - 1 / fast) := by
  have hrate : FrameGrid.ofRate (30 : ℝ) = .ok ⟨30⟩ := ofRate_of_pos (by norm_num)
  have hflaw : (bent 1 100).flaw? = none := bent_flaw?_eq_none (by norm_num) (by norm_num)
  rcases (play_between_speeds 30 _ hrate _ hflaw).2.1 with
    ⟨slow, fast, hslow, hfast, -, -, hbound⟩
  exact ⟨_, hrate, hflaw, slow, fast, hslow, hfast, hbound⟩

/-- The time of a clip is not always between the two, even if the source it
    covers is taken to be half a millionth of a second longer or shorter. -/
theorem play_outside_speeds :
    ∃ g : FrameGrid ℝ, FrameGrid.ofRate 30 = .ok g ∧
      (∃ m : SpeedMap ℝ, m.flaw? = none ∧ IsLeast {v | v ∈ m.speeds} 1 ∧
        g.lastFrameBefore m.stop - m.start = 1 ∧ (1 + 5e-7) / 1 < (g.breakdown m).rawTotal) ∧
      ∃ m : SpeedMap ℝ, m.flaw? = none ∧ IsGreatest {v | v ∈ m.speeds} 100 ∧
        g.lastFrameBefore m.stop - m.start = 1 ∧ (g.breakdown m).rawTotal < (1 - 5e-7) / 100 := by
  rcases pace_one_hundred with ⟨hge, hle⟩
  have hcovered : ∀ a b : ℝ,
      FrameGrid.lastFrameBefore ⟨30⟩ (bent a b).stop - (bent a b).start = 1 := by
    intro a b
    rw [bent_lastFrame]
    exact sub_zero 1
  -- Almost all of the time has one speed, and what runs back has the other.
  refine ⟨⟨30⟩, ofRate_of_pos (by norm_num),
    ⟨bent 1 100, bent_flaw?_eq_none (by norm_num) (by norm_num), ?_, hcovered 1 100, ?_⟩,
    ⟨bent 100 1, bent_flaw?_eq_none (by norm_num) (by norm_num), ?_, hcovered 100 1, ?_⟩⟩
  · rw [bent_speeds]
    refine ⟨List.mem_cons_self, fun v hv => ?_⟩
    rcases (by simpa using hv : v = 1 ∨ v = 100) with rfl | rfl
    · exact le_rfl
    · norm_num
  · rw [bent_rawTotal]
    norm_num at hle ⊢
    linarith
  · rw [bent_speeds]
    refine ⟨List.mem_cons_self, fun v hv => ?_⟩
    rcases (by simpa using hv : v = 100 ∨ v = 1) with rfl | rfl
    · exact le_rfl
    · norm_num
  · rw [bent_rawTotal, pace_comm]
    norm_num at hge ⊢
    linarith

end Retime
