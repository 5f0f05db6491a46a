import Retime.Proofs.Exact
import Retime.Proofs.SoundMap
import Retime.Speed.Duration

/-!
# How a Clip Is Cut Up

The sections of a clip, one by one.

All sections but the last reach from one point of the map to the next, and are
only moved back by the wait for the first frame. The last one ends at the last
frame instead, so it alone has a length that is not read off the map. What is
proved of every section is proved in these two cases.

In exact arithmetic the closed form of the integral simplifies. The line
through the speeds at the two bounds has at each bound the speed it was drawn
through, so its slope and its intercept cancel and what is left are the
logarithms of the two speeds.

## Main definitions

* `SpeedMap.heel`: The point in front of the last.
* `FrameGrid.fromFirst`: A time measured from the first frame.
* `FrameGrid.sectionOf`, `FrameGrid.lastSection`: The sections of a clip.
* `FrameGrid.tiles`: A row of sections from point to point.

## Theorems

* `FrameGrid.sections_eq_tiles`, `FrameGrid.sections_eq`: The sections of a clip in
  their order.
* `FrameGrid.mem_sections`: There are no other sections.
* `FrameGrid.points_of_mem_sections`: Sections have the speeds of points.
* `Section.playTime_withLog`, `Section.playTime_eq`: The time that a section
  takes, by its length and the two speeds.
* `FrameGrid.lastFrameBefore_gt`: The last frame is less than a frame and a
  little before the end.
* `FrameGrid.heldTime_eq`: How long a clip plays, in whole milliseconds.
* `FrameGrid.heldTime_mono`: Sections that take longer make no shorter clip.
-/

namespace Retime

namespace SpeedMap

variable {α : Type}

/-- The point in front of the last. -/
def heel (m : SpeedMap α) : SpeedPoint α :=
  (m.first :: m.inner).getLast (List.cons_ne_nil _ _)

/-- The time from that point to the end. -/
def lastSpan [Scalar α] (m : SpeedMap α) : α := m.stop - m.heel.time

theorem heel_mem (m : SpeedMap α) : m.heel ∈ m.points := by
  have hmem : m.heel ∈ m.first :: m.inner := List.getLast_mem _
  change _ ∈ m.first :: m.inner ++ [m.last]
  exact List.mem_append_left _ hmem

theorem last_mem (m : SpeedMap α) : m.last ∈ m.points :=
  List.mem_cons_of_mem _ (List.mem_append_right _ List.mem_cons_self)

end SpeedMap

namespace FrameGrid

variable {α : Type} [Scalar α]

/-- A time measured from the first frame of a clip. -/
def fromFirst (g : FrameGrid α) (m : SpeedMap α) (time : α) : α :=
  time - m.start - (g.breakdown m).startTrim

/-- The bound of the last section: the last frame, to six decimals. -/
def lastUpper (g : FrameGrid α) (m : SpeedMap α) : α :=
  Scalar.roundTo 6 (g.fromFirst m (g.lastFrameBefore m.stop))

/-- The section of a segment that is not the last. -/
def sectionOf (g : FrameGrid α) (m : SpeedMap α) (s : SpeedPoint α × SpeedPoint α) : Section α :=
  ⟨s.1, s.2, g.fromFirst m s.1.time, g.fromFirst m s.2.time⟩

/-- The section of the last segment. -/
def lastSection (g : FrameGrid α) (m : SpeedMap α) : Section α :=
  ⟨m.heel, m.last, g.fromFirst m m.heel.time, g.lastUpper m⟩

omit [Scalar α] in
/-- A row of sections, one to each next point. The last one ends at `u`, and
    all others where `f` takes their right point. -/
def tiles (f : α → α) (u : α) (last : SpeedPoint α) :
    List (SpeedPoint α) → SpeedPoint α → List (Section α)
  | [], first => [⟨first, last, f first.time, u⟩]
  | p :: inner, first => ⟨first, p, f first.time, f p.time⟩ :: tiles f u last inner p

/-- The sections of a clip follow the points of its map. -/
theorem sections_eq_tiles (g : FrameGrid α) (m : SpeedMap α) :
    (g.breakdown m).sections = tiles (g.fromFirst m) (g.lastUpper m) m.last m.inner m.first := by
  change ((m.first :: (m.inner ++ [m.last])).zip (m.inner ++ [m.last])).zipWith
    (fun seg upper => (⟨seg.1, seg.2, g.fromFirst m seg.1.time, upper⟩ : Section α))
    (m.inner.map (fun p => g.fromFirst m p.time) ++ [g.lastUpper m]) = _
  -- The bounds are those of the whole map, while the row of points gets shorter.
  generalize g.fromFirst m = f, g.lastUpper m = u, m.last = last, m.inner = inner,
    m.first = first
  induction inner generalizing first with
  | nil => rfl
  | cons p inner ih => exact congrArg (List.cons _) (ih p)

omit [Scalar α] in
/-- All of such a row but the last lie between neighbouring points. -/
theorem tiles_eq_concat (f : α → α) (u : α) (last : SpeedPoint α) (inner : List (SpeedPoint α))
    (first : SpeedPoint α) :
    ∃ segs : List (SpeedPoint α × SpeedPoint α),
      (∀ seg ∈ segs, seg ∈ (first :: (inner ++ [last])).zip (inner ++ [last])) ∧
      tiles f u last inner first =
        segs.map (fun seg => ⟨seg.1, seg.2, f seg.1.time, f seg.2.time⟩) ++
          [⟨(first :: inner).getLast (List.cons_ne_nil _ _), last,
            f ((first :: inner).getLast (List.cons_ne_nil _ _)).time, u⟩] := by
  induction inner generalizing first with
  | nil => exact ⟨[], (fun _ h => nomatch h), rfl⟩
  | cons p inner ih =>
      -- The tile in front goes to the next point, and the rest begin from there.
      rcases ih p with ⟨segs, hsegs, heq⟩
      refine ⟨(first, p) :: segs, ?_, congrArg (List.cons _) heq⟩
      exact List.forall_mem_cons.mpr
        ⟨List.mem_cons_self, fun seg h => List.mem_cons_of_mem _ (hsegs seg h)⟩

/-- The sections of a clip in their order. -/
theorem sections_eq (g : FrameGrid α) (m : SpeedMap α) :
    ∃ segs : List (SpeedPoint α × SpeedPoint α), (∀ seg ∈ segs, seg ∈ m.segments) ∧
      (g.breakdown m).sections = segs.map (g.sectionOf m) ++ [g.lastSection m] := by
  rw [sections_eq_tiles]
  exact tiles_eq_concat (g.fromFirst m) (g.lastUpper m) m.last m.inner m.first

/-- Every section but the last lies between the points of its segment. -/
theorem mem_sections {g : FrameGrid α} {m : SpeedMap α} {s : Section α}
    (h : s ∈ (g.breakdown m).sections) :
    (∃ seg ∈ m.segments, s = g.sectionOf m seg) ∨ s = g.lastSection m := by
  rcases g.sections_eq m with ⟨segs, hsegs, heq⟩
  rw [heq] at h
  rcases List.mem_append.mp h with h | h
  · rcases List.mem_map.mp h with ⟨seg, hseg, rfl⟩
    exact Or.inl ⟨seg, hsegs seg hseg, rfl⟩
  · exact Or.inr (List.mem_singleton.mp h)

/-- The speeds of a section are those of two points of the map. -/
theorem points_of_mem_sections {g : FrameGrid α} {m : SpeedMap α} {s : Section α}
    (h : s ∈ (g.breakdown m).sections) : s.left ∈ m.points ∧ s.right ∈ m.points := by
  rcases mem_sections h with ⟨seg, hseg, rfl⟩ | rfl
  · exact SpeedMap.mem_points_of_mem_segments hseg
  · exact ⟨m.heel_mem, m.last_mem⟩

end FrameGrid

open Exact

namespace Section

theorem isEmpty_iff (s : Section ℝ) : s.isEmpty = true ↔ s.length = 0 := by
  rw [isEmpty, beq_iff, decimal_zero]

/-- At its two bounds, the line through the speeds has these speeds. -/
theorem line_upper {s : Section ℝ} (h : s.length ≠ 0) :
    s.slope * s.upper + (s.left.speed - s.slope * s.lower) = s.right.speed := by
  have hslope : s.slope * s.length = s.right.speed - s.left.speed := div_mul_cancel₀ _ h
  have hlength : s.length = s.upper - s.lower := rfl
  rw [hlength] at hslope
  linarith

theorem line_lower (s : Section ℝ) :
    s.slope * s.lower + (s.left.speed - s.slope * s.lower) = s.left.speed := by
  ring

/-- The time that a section takes, by its length and the two speeds, whatever
    function the logarithm is. -/
theorem playTime_withLog (ln : ℝ → ℝ) (s : Section ℝ) :
    @playTime ℝ (withLog ln) s =
      if s.left.speed = s.right.speed then s.length / s.left.speed
      else s.length / (s.right.speed - s.left.speed) *
        (ln |s.right.speed| - ln |s.left.speed|) := by
  change (if s.isEmpty = true then 0.0 else
    if (s.slope == (0.0 : ℝ)) = true then s.length / s.left.speed else
      1.0 / s.slope *
        (ln (Scalar.abs (s.slope * s.upper + (s.left.speed - s.slope * s.lower))) -
          ln (Scalar.abs (s.slope * s.lower + (s.left.speed - s.slope * s.lower))))) = _
  by_cases hlength : s.length = 0
  · rw [if_pos ((isEmpty_iff s).mpr hlength), hlength, decimal_zero]
    simp
  · rw [if_neg (fun h => hlength ((isEmpty_iff s).mp h))]
    -- The slope is zero where the speeds are the same, as the length is not zero.
    have hflat : (s.slope == (0.0 : ℝ)) = true ↔ s.left.speed = s.right.speed := by
      have hslope : s.slope = (s.right.speed - s.left.speed) / s.length := rfl
      rw [beq_iff, decimal_zero, hslope, div_eq_zero_iff, or_iff_left hlength, sub_eq_zero,
        eq_comm]
    by_cases hspeed : s.left.speed = s.right.speed
    · rw [if_pos (hflat.mpr hspeed), if_pos hspeed]
    · -- The slope and the intercept cancel.
      have hslope : 1 / s.slope = s.length / (s.right.speed - s.left.speed) := one_div_div _ _
      rw [if_neg (fun h => hspeed (hflat.mp h)), if_neg hspeed, line_upper hlength, line_lower,
        abs_eq, abs_eq, decimal_one, hslope]

/-- The time that a section takes, by its length and the two speeds. -/
theorem playTime_eq (s : Section ℝ) :
    s.playTime = if s.left.speed = s.right.speed then s.length / s.left.speed
      else s.length / (s.right.speed - s.left.speed) *
        (Real.log s.right.speed - Real.log s.left.speed) := by
  have htime := playTime_withLog Real.log s
  rw [Real.log_abs, Real.log_abs] at htime
  exact htime

/-- A section that does not run backwards takes no negative time. -/
theorem playTime_nonneg {s : Section ℝ} (hlength : 0 ≤ s.length) (hleft : 0 < s.left.speed)
    (hright : 0 < s.right.speed) : 0 ≤ s.playTime := by
  rw [playTime_eq]
  by_cases hspeed : s.left.speed = s.right.speed
  · rw [if_pos hspeed]
    exact div_nonneg hlength hleft.le
  · rw [if_neg hspeed]
    -- The speed and its logarithm grow or fall together.
    rcases lt_or_gt_of_ne hspeed with h | h
    · have hlog := Real.log_le_log hleft h.le
      exact mul_nonneg (div_nonneg hlength (by linarith)) (by linarith)
    · have hlog := Real.log_le_log hright h.le
      exact mul_nonneg_of_nonpos_of_nonpos
        (div_nonpos_of_nonneg_of_nonpos hlength (by linarith)) (by linarith)

end Section

namespace FrameGrid

theorem step_eq (g : FrameGrid ℝ) : g.step = 1 / g.rate := by
  rw [step, decimal_one]

theorem isOn_iff (frames whole : ℝ) : isOn frames whole = true ↔ |frames - whole| < 1e-9 := by
  rw [isOn, abs_eq, decide_eq_true_iff]

theorem not_isOn_zero {frames : ℝ} (h : 1e-9 ≤ frames) : ¬ isOn frames 0 = true := by
  have htiny : (0 : ℝ) < 1e-9 := by norm_num
  rw [isOn_iff, sub_zero, abs_of_pos (lt_of_lt_of_le htiny h)]
  exact not_lt.mpr h

/-- The last frame is less than a frame and a little before the end. -/
theorem lastFrameBefore_gt {g : FrameGrid ℝ} (hg : 0 < g.rate) (time : ℝ) :
    time - (1 + 1e-9) / g.rate - 1e-10 < g.lastFrameBefore time := by
  have htime : time = time * g.rate / g.rate := (mul_div_cancel_right₀ time hg.ne').symm
  have hlittle : (0 : ℝ) < 1e-9 / g.rate := div_pos (by norm_num) hg
  have hframe : (1 + 1e-9) / g.rate = 1 / g.rate + 1e-9 / g.rate := add_div 1 1e-9 g.rate
  change _ < if isOn (time * g.rate) (Scalar.round (time * g.rate)) = true then
      Scalar.round (time * g.rate) / g.rate - g.step
    else
      if time - (⌊time * g.rate⌋ : ℝ) / g.rate < (1e-10 : ℝ) then
        (⌊time * g.rate⌋ : ℝ) / g.rate - g.step
      else (⌊time * g.rate⌋ : ℝ) / g.rate
  rw [step_eq, round_eq, hframe]
  by_cases hon : isOn (time * g.rate) (nearest (time * g.rate)) = true
  -- On the grid the last frame is the one before, and the time counts as lying there.
  · have hnear := (abs_lt.mp ((isOn_iff _ _).mp hon)).2
    have hdiv : (time * g.rate - 1e-9) / g.rate < (nearest (time * g.rate) : ℝ) / g.rate :=
      div_lt_div_of_pos_right (by linarith) hg
    rw [sub_div, ← htime] at hdiv
    rw [if_pos hon]
    norm_num at hdiv ⊢
    linarith
  · have hfloor : (time * g.rate - 1) / g.rate < (⌊time * g.rate⌋ : ℝ) / g.rate :=
      div_lt_div_of_pos_right (by linarith [Int.lt_floor_add_one (time * g.rate)]) hg
    rw [sub_div, ← htime] at hfloor
    rw [if_neg hon]
    by_cases hend : time - (⌊time * g.rate⌋ : ℝ) / g.rate < (1e-10 : ℝ)
    · rw [if_pos hend]
      linarith
    · rw [if_neg hend]
      have htiny : (0 : ℝ) < 1e-10 := by norm_num
      linarith

/-- How long sections play that take `raw` seconds, in whole milliseconds. -/
theorem heldTime_eq (g : FrameGrid ℝ) (raw : ℝ) :
    g.heldTime raw = (nearest (((nearest (raw * g.rate) : ℝ) + 1) / g.rate * 1000) : ℝ) / 1000 := by
  have hscale : (10 : ℝ) ^ 3 = 1000 := by norm_num
  change Scalar.roundTo (3 : ℕ) (Scalar.round (raw * g.rate) / g.rate + g.step) = _
  rw [roundTo_eq, round_eq, step_eq, hscale, add_div]

/-- Sections that take longer make a clip that is no shorter. -/
theorem heldTime_mono {g : FrameGrid ℝ} (hg : 0 < g.rate) {raw raw' : ℝ} (h : raw ≤ raw') :
    g.heldTime raw ≤ g.heldTime raw' := by
  have hframes : (nearest (raw * g.rate) : ℝ) ≤ nearest (raw' * g.rate) :=
    Int.cast_le.mpr (nearest_mono (mul_le_mul_of_nonneg_right h hg.le))
  have hmillis : ((nearest (raw * g.rate) : ℝ) + 1) / g.rate * 1000 ≤
      ((nearest (raw' * g.rate) : ℝ) + 1) / g.rate * 1000 :=
    mul_le_mul_of_nonneg_right (div_le_div_of_nonneg_right (by linarith) hg.le) (by norm_num)
  rw [heldTime_eq, heldTime_eq]
  exact div_le_div_of_nonneg_right (Int.cast_le.mpr (nearest_mono hmillis)) (by norm_num)

end FrameGrid

end Retime
