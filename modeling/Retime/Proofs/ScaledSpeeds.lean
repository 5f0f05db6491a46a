import Retime.Proofs.PlayRate

/-!
# Faster Throughout

A clip all of whose speeds are multiplied by the same factor.

The cuts of a clip are a matter of its times, so a factor on the speeds leaves
every section where it is. What a section takes is its length times the mean of
the inverse of its speed, and the factor goes through that mean: where the speed
stays the same it divides the inverse, and where it changes the logarithms of
both speeds grow by the logarithm of the factor, which cancels, and their
difference is divided by a longer way from the one speed to the other.

So the sections together take a part of what they took. If that was not
negative it is less, and the two roundings that make a clip of it keep the
order.

All that is used of the logarithm is that it takes products to sums. The law is
therefore stated with any function that does, and rounding, which asks for no
logarithm, is the same with all of them.

## Main definitions

* `SpeedMap.scaled`, `Section.scaled`: All speeds are multiplied.
* `TakesProducts`: What is asked of the logarithm.

## Theorems

* `FrameGrid.sections_scaled`: The sections stay where they are.
* `Section.playTime_scaled`: A factor on both speeds divides the time of a
  section.
* `FrameGrid.rawTotal_scaled`: What the sections take is divided.
* `faster_plays_no_longer`: A clip that is sped up does not get longer.
-/

namespace Retime

/-! ### Speeds with a factor -/

section Scaling

variable {α : Type}

/-- The speed of a point multiplied. -/
def SpeedPoint.scaled [Mul α] (c : α) (p : SpeedPoint α) : SpeedPoint α :=
  { p with speed := c * p.speed }

/-- All speeds of a map multiplied. -/
def SpeedMap.scaled [Mul α] (c : α) (m : SpeedMap α) : SpeedMap α :=
  ⟨m.first.scaled c, m.inner.map (SpeedPoint.scaled c), m.last.scaled c⟩

/-- Both speeds of a section multiplied. -/
def Section.scaled [Mul α] (c : α) (s : Section α) : Section α :=
  { s with left := s.left.scaled c, right := s.right.scaled c }

namespace SpeedMap

variable [Mul α] (c : α) (m : SpeedMap α)

theorem points_scaled : (m.scaled c).points = m.points.map (SpeedPoint.scaled c) := by
  simp [points, scaled]

theorem times_scaled : (m.scaled c).times = m.times := by
  unfold times
  rw [points_scaled, List.map_map]
  rfl

theorem speeds_scaled : (m.scaled c).speeds = m.speeds.map (c * ·) := by
  unfold speeds
  rw [points_scaled, List.map_map, List.map_map]
  rfl

theorem segments_scaled : (m.scaled c).segments =
    m.segments.map (Prod.map (SpeedPoint.scaled c) (SpeedPoint.scaled c)) := by
  have hrest : (m.scaled c).inner ++ [(m.scaled c).last] =
      (m.inner ++ [m.last]).map (SpeedPoint.scaled c) := by
    rw [List.map_append]
    rfl
  unfold segments
  rw [points_scaled, hrest, List.zip_map]

end SpeedMap

/-- The sections stay where they are. -/
theorem FrameGrid.sections_scaled [Scalar α] (g : FrameGrid α) (c : α) (m : SpeedMap α) :
    (g.breakdown (m.scaled c)).sections = (g.breakdown m).sections.map (Section.scaled c) := by
  unfold breakdown
  dsimp only
  rw [SpeedMap.segments_scaled, List.zipWith_map_left, List.map_zipWith]
  have huppers : (m.scaled c).inner.map (fun p => g.fromFirst m p.time) =
      m.inner.map (fun p => g.fromFirst m p.time) := List.map_map
  exact congrArg (fun uppers => m.segments.zipWith _ (uppers ++ [g.lastUpper m])) huppers

end Scaling

open Exact

/-- A factor on all speeds keeps a map sound. -/
theorem SpeedMap.Sound.scaled {m : SpeedMap ℝ} (hm : m.Sound) {c : ℝ} (hc : 0 < c) :
    (m.scaled c).Sound := by
  rcases sound_iff.mp hm with ⟨hfinite, hspeed, hsorted, hspan⟩
  rw [sound_iff, times_scaled, speeds_scaled, List.forall_mem_map]
  refine ⟨hfinite, fun v hv => ?_, hsorted, hspan⟩
  exact (isPositive_iff _).mpr (mul_pos hc ((isPositive_iff v).mp (hspeed v hv)))

/-! ### What the sections take -/

/-- A function takes the product of two positive numbers to a sum. -/
def TakesProducts (ln : ℝ → ℝ) : Prop :=
  ∀ a b : ℝ, 0 < a → 0 < b → ln (a * b) = ln a + ln b

theorem takesProducts_log : TakesProducts Real.log :=
  fun _ _ ha hb => Real.log_mul ha.ne' hb.ne'

section Logarithm

variable {ln : ℝ → ℝ} (hln : TakesProducts ln) {c : ℝ} (hc : 0 < c)

include hln hc

/-- A factor on both speeds divides the time of a section. -/
theorem Section.playTime_scaled {s : Section ℝ} (hleft : 0 < s.left.speed)
    (hright : 0 < s.right.speed) :
    letI := withLog ln
    (s.scaled c).playTime = s.playTime / c := by
  have hlength : (s.scaled c).length = s.length := rfl
  have hleft' : (s.scaled c).left.speed = c * s.left.speed := rfl
  have hright' : (s.scaled c).right.speed = c * s.right.speed := rfl
  rw [playTime_withLog, playTime_withLog, hlength, hleft', hright']
  by_cases h : s.left.speed = s.right.speed
  · rw [if_pos (congrArg (c * ·) h), if_pos h, div_div, mul_comm]
  · have hne : c * s.left.speed ≠ c * s.right.speed := fun heq => h (mul_left_cancel₀ hc.ne' heq)
    rw [if_neg hne, if_neg h, abs_of_pos (mul_pos hc hright), abs_of_pos (mul_pos hc hleft),
      abs_of_pos hright, abs_of_pos hleft]
    -- The logarithm of the factor cancels.
    have hsame : ln (c * s.right.speed) - ln (c * s.left.speed) =
        ln s.right.speed - ln s.left.speed := by
      rw [hln _ _ hc hright, hln _ _ hc hleft, add_sub_add_left_eq_sub]
    rw [hsame, ← mul_sub, mul_comm c, ← div_div, div_mul_eq_mul_div]

variable {g : FrameGrid ℝ} {m : SpeedMap ℝ} (hm : m.Sound)

include hm

theorem FrameGrid.playTime_scaled_of_mem :
    letI := withLog ln
    ∀ s ∈ (g.breakdown m).sections, (s.scaled c).playTime = s.playTime / c := by
  intro s hs
  rcases @points_of_mem_sections ℝ (withLog ln) _ _ _ hs with ⟨hleft, hright⟩
  exact Section.playTime_scaled hln hc ((isPositive_iff _).mp (hm.speed _ hleft))
    ((isPositive_iff _).mp (hm.speed _ hright))

/-- What the sections take together is divided by the factor. -/
theorem FrameGrid.rawTotal_scaled :
    letI := withLog ln
    (g.breakdown (m.scaled c)).rawTotal = (g.breakdown m).rawTotal / c := by
  let _ := withLog ln
  -- The sections are the same but for their speeds, so each takes its time over the factor.
  have hparts : (g.breakdown (m.scaled c)).sections.map Section.playTime =
      (g.breakdown m).sections.map fun s => s.playTime * c⁻¹ := by
    rw [sections_scaled, List.map_map]
    refine List.map_congr_left fun s hs => ?_
    rw [← div_eq_mul_inv]
    exact playTime_scaled_of_mem hln hc hm s hs
  calc (g.breakdown (m.scaled c)).rawTotal
      = ((g.breakdown (m.scaled c)).sections.map Section.playTime).sum := sum_eq _
    _ = ((g.breakdown m).sections.map Section.playTime).sum / c := by
        rw [hparts, List.sum_map_mul_right, div_eq_mul_inv]
    _ = (g.breakdown m).rawTotal / c := congrArg (· / c) (sum_eq _).symm

end Logarithm

/-- A clip of which all speeds are multiplied by the same positive factor is cut
    up as before: the wait for the first frame is the same, each section has its
    bounds and is passed over if it was, and takes what it took divided by the
    factor, and so do all together. If that was not negative and the factor is
    not below one, then the clip does not play longer than before. This is so
    whatever the logarithm is, as long as it takes products to sums. -/
theorem faster_plays_no_longer (ln : ℝ → ℝ) (hln : TakesProducts ln) :
    letI := withLog ln
    ∀ (rate : ℝ) (g : FrameGrid ℝ) (m : SpeedMap ℝ) (c : ℝ),
      FrameGrid.ofRate rate = .ok g → m.flaw? = none → 0 < c →
      (m.scaled c).flaw? = none ∧
      (g.breakdown (m.scaled c)).startTrim = (g.breakdown m).startTrim ∧
      List.Forall₂ (fun s s' =>
          (s'.left = s.left.scaled c ∧ s'.right = s.right.scaled c) ∧
          (s'.lower = s.lower ∧ s'.upper = s.upper) ∧ s'.isEmpty = s.isEmpty ∧
          s'.playTime = s.playTime / c)
        (g.breakdown m).sections (g.breakdown (m.scaled c)).sections ∧
      (g.breakdown (m.scaled c)).rawTotal = (g.breakdown m).rawTotal / c ∧
      (0 ≤ (g.breakdown m).rawTotal → 1 ≤ c → g.playTime (m.scaled c) ≤ g.playTime m) := by
  intro rate g m c hg hm hc
  rcases FrameGrid.ofRate_eq_ok hg with ⟨hrate, rfl⟩
  have hsound := (SpeedMap.flaw?_eq_none_iff m).mp hm
  have hraw := FrameGrid.rawTotal_scaled hln hc (g := ⟨rate⟩) hsound
  have hflaw := (SpeedMap.flaw?_eq_none_iff _).mpr (hsound.scaled hc)
  refine ⟨hflaw, rfl, ?_, hraw, fun hle hone => ?_⟩
  · let _ := withLog ln
    rw [FrameGrid.sections_scaled, List.forall₂_map_right_iff, List.forall₂_same]
    intro s hs
    exact ⟨⟨rfl, rfl⟩, ⟨rfl, rfl⟩, rfl, FrameGrid.playTime_scaled_of_mem hln hc hsound s hs⟩
  · have hheld := FrameGrid.heldTime_mono (g := ⟨rate⟩) hrate (div_le_self hle hone)
    rw [← hraw] at hheld
    -- Rounding is the same with any logarithm.
    exact (roundTo_withLog ln 3 _).trans_le (hheld.trans_eq (roundTo_withLog ln 3 _).symm)

/-- A clip whose last section runs backwards, at twice the speed. -/
theorem faster_plays_no_longer_twice :
    ∃ g : FrameGrid ℝ, FrameGrid.ofRate 30 = .ok g ∧ (bent 1 100).flaw? = none ∧
      0 ≤ (g.breakdown (bent 1 100)).rawTotal ∧
      g.playTime ((bent 1 100).scaled 2) ≤ g.playTime (bent 1 100) := by
  have hrate : FrameGrid.ofRate (30 : ℝ) = .ok ⟨30⟩ := ofRate_of_pos (by norm_num)
  have hflaw : (bent 1 100).flaw? = none := bent_flaw?_eq_none (by norm_num) (by norm_num)
  -- The last section runs backwards, for less than the one before it takes.
  have hraw : 0 ≤ (FrameGrid.breakdown ⟨30⟩ (bent 1 100)).rawTotal := by
    rw [bent_rawTotal]
    linarith [pace_one_hundred.2]
  rcases faster_plays_no_longer Real.log takesProducts_log 30 ⟨30⟩ (bent 1 100) 2 hrate hflaw
    (by norm_num) with ⟨-, -, -, -, hplay⟩
  exact ⟨_, hrate, hflaw, hraw, hplay hraw (by norm_num)⟩

end Retime
