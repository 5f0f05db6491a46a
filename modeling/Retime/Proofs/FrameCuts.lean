import Retime.Proofs.PlayRate

/-!
# Where a Clip Is Cut

Which frames a clip begins and ends with, and how its sections tile the source
between them.

Both ends are brought onto the grid, and both with some tolerance. At the start
a number of frames counts as the nearest whole number if it is that close to
it, so the first frame may begin a little before the start. At the end there
are two tolerances, one in frames and one in seconds, and which is larger is a
matter of the rate. A time that counts as lying on the grid by either of them
has its last frame one before, so the last frame always begins before the end,
and the end comes a frame and the larger tolerance after that at most.

The sections go by the points of the map, each from where the one in front of
it ends. Speeds are positive, so a section takes no time only if it has no
length.

## Theorems

* `FrameGrid.snapUp_spec`: The whole number of frames that a start goes to.
* `FrameGrid.lastFrameBefore_spec`: The last frame before a time.
* `FrameGrid.pairs_sections`: There is a section between any two neighbouring
  points.
* `FrameGrid.isChain_sections`: Each begins where the one in front of it ends.
* `cuts_on_grid`: The cuts of a clip.
-/

namespace Retime

open Exact

theorem Exact.ceil_eq (x : ℝ) : Scalar.ceil x = (⌈x⌉ : ℤ) := by
  change -(⌊-x⌋ : ℝ) = (⌈x⌉ : ℤ)
  rw [Int.floor_neg, Int.cast_neg, neg_neg]

namespace FrameGrid

/-- The whole number of frames that a start goes to is less than one above it,
    and hardly below it. -/
theorem snapUp_spec (frames : ℝ) :
    ∃ k : ℤ, snapUp frames = k ∧ (k : ℝ) - 1 < frames ∧ frames < k + 1e-9 := by
  unfold snapUp
  rw [round_eq, ceil_eq]
  -- On the grid the nearest frame counts, and off it the next one.
  by_cases hon : isOn frames (nearest frames) = true
  · rcases abs_lt.mp ((isOn_iff _ _).mp hon) with ⟨hlow, hhigh⟩
    have htiny : (1e-9 : ℝ) < 1 := by norm_num
    rw [if_pos hon]
    exact ⟨_, rfl, by linarith, by linarith⟩
  · have hceil := Int.ceil_lt_add_one frames
    have hle := Int.le_ceil frames
    have htiny : (0 : ℝ) < 1e-9 := by norm_num
    rw [if_neg hon]
    exact ⟨_, rfl, by linarith, by linarith⟩

/-- The last frame before a time begins before it, and is less than one frame
    before what counts as the time. -/
theorem lastFrameBefore_spec {g : FrameGrid ℝ} (hg : 0 < g.rate) (time : ℝ) :
    ∃ j : ℤ, g.lastFrameBefore time = j / g.rate ∧ j / g.rate < time ∧
      time ≤ j / g.rate + 1 / g.rate + max (1e-9 / g.rate) 1e-10 := by
  have htime : time = time * g.rate / g.rate := (mul_div_cancel_right₀ time hg.ne').symm
  have hframes : (1e-9 : ℝ) / g.rate ≤ max (1e-9 / g.rate) 1e-10 := le_max_left _ _
  have hseconds : (1e-10 : ℝ) ≤ max (1e-9 / g.rate) 1e-10 := le_max_right _ _
  have htiny : (0 : ℝ) < 1e-10 := by norm_num
  have hback : ∀ k : ℤ, (k : ℝ) / g.rate - g.step = ((k - 1 : ℤ) : ℝ) / g.rate := by
    intro k
    rw [step_eq, Int.cast_sub, Int.cast_one, sub_div]
  have hnext : ∀ k : ℤ, ((k - 1 : ℤ) : ℝ) / g.rate + 1 / g.rate = (k : ℝ) / g.rate := by
    intro k
    rw [Int.cast_sub, Int.cast_one, sub_div, sub_add_cancel]
  have hexits : g.lastFrameBefore time =
      if isOn (time * g.rate) (nearest (time * g.rate)) = true then
        ((nearest (time * g.rate) - 1 : ℤ) : ℝ) / g.rate
      else if time - (⌊time * g.rate⌋ : ℝ) / g.rate < (1e-10 : ℝ) then
        ((⌊time * g.rate⌋ - 1 : ℤ) : ℝ) / g.rate
      else (⌊time * g.rate⌋ : ℝ) / g.rate := by
    rw [← hback, ← hback, ← round_eq]
    rfl
  have hle : (⌊time * g.rate⌋ : ℝ) / g.rate ≤ time := by
    rw [div_le_iff₀ hg]
    exact Int.floor_le _
  have hframe : 0 < 1 / g.rate := one_div_pos.mpr hg
  rw [hexits]
  by_cases hon : isOn (time * g.rate) (nearest (time * g.rate)) = true
  -- The time counts as the frame it is nearest to, which is not before it then.
  · rcases abs_lt.mp ((isOn_iff _ _).mp hon) with ⟨hlow, hhigh⟩
    have hless : (1e-9 : ℝ) < 1 := by norm_num
    rw [if_pos hon]
    refine ⟨_, rfl, ?_, ?_⟩
    · rw [div_lt_iff₀ hg, Int.cast_sub, Int.cast_one]
      linarith
    · have habove : time < (nearest (time * g.rate) : ℝ) / g.rate + 1e-9 / g.rate := by
        rw [← add_div, lt_div_iff₀ hg]
        linarith
      rw [hnext]
      linarith
  · rw [if_neg hon]
    by_cases hend : time - (⌊time * g.rate⌋ : ℝ) / g.rate < (1e-10 : ℝ)
    · rw [if_pos hend]
      refine ⟨_, rfl, ?_, ?_⟩
      · linarith [hnext ⌊time * g.rate⌋]
      · rw [hnext]
        linarith
    -- The time has left its frame, and is not at the next.
    · rw [if_neg hend]
      have hlt : time < (⌊time * g.rate⌋ : ℝ) / g.rate + 1 / g.rate := by
        rw [← add_div, lt_div_iff₀ hg]
        exact Int.lt_floor_add_one _
      exact ⟨_, rfl, by linarith, by linarith⟩

section Tiling

variable {α : Type} (f : α → α) (u : α) (last : SpeedPoint α)

theorem pairs_tiles (inner : List (SpeedPoint α)) (first : SpeedPoint α) :
    (tiles f u last inner first).map (fun s => (s.left, s.right)) =
      (first :: (inner ++ [last])).zip (inner ++ [last]) := by
  induction inner generalizing first with
  | nil => rfl
  | cons p inner ih => exact congrArg (List.cons (first, p)) (ih p)

theorem head?_tiles (inner : List (SpeedPoint α)) (first : SpeedPoint α) :
    (tiles f u last inner first).head?.map Section.lower = some (f first.time) := by
  cases inner with
  | nil => rfl
  | cons p inner => rfl

theorem isChain_tiles (inner : List (SpeedPoint α)) (first : SpeedPoint α) :
    (tiles f u last inner first).IsChain fun s t => t.lower = s.upper := by
  induction inner generalizing first with
  | nil => exact List.isChain_singleton _
  | cons p inner ih =>
      refine List.isChain_cons.mpr ⟨fun t ht => ?_, ih p⟩
      have hhead := head?_tiles f u last inner p
      rw [Option.mem_def.mp ht] at hhead
      exact Option.some.inj hhead

end Tiling

/-- There is a section between any two neighbouring points. -/
theorem pairs_sections (g : FrameGrid ℝ) (m : SpeedMap ℝ) :
    (g.breakdown m).sections.map (fun s => (s.left, s.right)) = m.points.zip m.points.tail := by
  rw [sections_eq_tiles, pairs_tiles]
  rfl

/-- The first section begins at the start of the map, which the wait for the
    first frame puts before the first frame. -/
theorem head?_sections (g : FrameGrid ℝ) (m : SpeedMap ℝ) :
    (g.breakdown m).sections.head?.map Section.lower = some (-(g.breakdown m).startTrim) := by
  rw [sections_eq_tiles, head?_tiles]
  change some (m.start - m.start - (g.breakdown m).startTrim) = _
  rw [sub_self, zero_sub]

/-- Each section begins where the one in front of it ends. -/
theorem isChain_sections (g : FrameGrid ℝ) (m : SpeedMap ℝ) :
    (g.breakdown m).sections.IsChain fun s t => t.lower = s.upper := by
  rw [sections_eq_tiles]
  exact isChain_tiles _ _ _ _ _

/-- The last section ends at the last frame, to six decimals. -/
theorem getLast?_sections (g : FrameGrid ℝ) (m : SpeedMap ℝ) :
    ∃ s, (g.breakdown m).sections.getLast? = some s ∧
      |s.upper - (g.lastFrameBefore m.stop - m.start - (g.breakdown m).startTrim)| ≤ 5e-7 := by
  rcases g.sections_eq m with ⟨segs, -, heq⟩
  have hround := abs_roundTo_sub_le 6 (g.fromFirst m (g.lastFrameBefore m.stop))
  refine ⟨g.lastSection m, ?_, hround.trans (by norm_num)⟩
  rw [heq, List.getLast?_concat]

end FrameGrid

/-- The mean of the inverse of a positive speed is positive. -/
theorem pace_pos {a b : ℝ} (ha : 0 < a) (hb : 0 < b) : 0 < pace a b :=
  (one_div_pos.mpr (ha.trans_le (le_max_left a b))).trans_le
    (pace_bounds (lt_min ha hb) ⟨min_le_left a b, le_max_left a b⟩
      ⟨min_le_right a b, le_max_right a b⟩).1

/-- A section takes no time only if it has no length. -/
theorem Section.playTime_eq_zero_iff {s : Section ℝ} (hleft : 0 < s.left.speed)
    (hright : 0 < s.right.speed) : s.playTime = 0 ↔ s.length = 0 := by
  rw [playTime_eq_pace, mul_eq_zero, or_iff_left (pace_pos hleft hright).ne']

/-- The cuts of a clip. The first frame is on the grid: the first at or after
    the start, unless one that begins hardly before it counts as lying at it. The
    last frame is on the grid as well, before the end and less than one frame
    before what counts as the end. The sections go by the points of the map,
    the first from the start, each further one from where the one in front of it
    ends, and the last to the last frame, to six decimals. A section is passed
    over just if it has no length, no other takes no time, and the clip takes
    the time of all. -/
theorem cuts_on_grid (rate : ℝ) (g : FrameGrid ℝ) (hg : FrameGrid.ofRate rate = .ok g)
    (m : SpeedMap ℝ) (hm : m.flaw? = none) :
    let b := g.breakdown m
    let lastFrame := g.lastFrameBefore m.stop
    (∃ k : ℤ, m.start + b.startTrim = k / rate ∧
      (k - 1) / rate < m.start ∧ m.start < k / rate + 1e-9 / rate) ∧
    (∃ j : ℤ, lastFrame = j / rate ∧
      j / rate < m.stop ∧ m.stop ≤ j / rate + 1 / rate + max (1e-9 / rate) 1e-10) ∧
    b.sections.map (fun s => (s.left, s.right)) = m.points.zip m.points.tail ∧
    b.sections.head?.map Section.lower = some (-b.startTrim) ∧
    b.sections.IsChain (fun s t => t.lower = s.upper) ∧
    (∃ s, b.sections.getLast? = some s ∧
      |s.upper - (lastFrame - m.start - b.startTrim)| ≤ 5e-7) ∧
    (∀ s ∈ b.sections, (s.isEmpty = true ↔ s.length = 0) ∧ (s.playTime = 0 ↔ s.length = 0)) ∧
    b.rawTotal = (b.sections.map Section.playTime).sum := by
  intro b lastFrame
  rcases FrameGrid.ofRate_eq_ok hg with ⟨hrate, rfl⟩
  have hsound := (SpeedMap.flaw?_eq_none_iff m).mp hm
  refine ⟨?_, FrameGrid.lastFrameBefore_spec hrate m.stop, FrameGrid.pairs_sections _ m,
    FrameGrid.head?_sections _ m, FrameGrid.isChain_sections _ m, FrameGrid.getLast?_sections _ m,
    fun s hs => ⟨s.isEmpty_iff, ?_⟩, sum_eq _⟩
  · -- In frames the start goes to a whole number, which the rate turns into a time.
    rcases FrameGrid.snapUp_spec (m.start * rate) with ⟨k, hk, hlow, hhigh⟩
    refine ⟨k, ?_, ?_, ?_⟩
    · rw [← hk]
      exact add_sub_cancel _ _
    · rwa [div_lt_iff₀ hrate]
    · rwa [← add_div, lt_div_iff₀ hrate]
  · rcases FrameGrid.points_of_mem_sections hs with ⟨hleft, hright⟩
    exact Section.playTime_eq_zero_iff ((isPositive_iff _).mp (hsound.speed _ hleft))
      ((isPositive_iff _).mp (hsound.speed _ hright))

/-- A clip from shortly after the thirtieth frame to shortly after the
    ninetieth begins with the frame after the one and ends with the other. -/
theorem cuts_on_grid_plain :
    ∃ g : FrameGrid ℝ, FrameGrid.ofRate 30 = .ok g ∧
      (g.breakdown (.plain (101 / 100) (301 / 100) 1)).startTrim = 31 / 30 - 101 / 100 ∧
      g.lastFrameBefore (301 / 100) = 3 := by
  have hrate : FrameGrid.ofRate (30 : ℝ) = .ok ⟨30⟩ := ofRate_of_pos (by norm_num)
  have hflaw : (SpeedMap.plain (101 / 100 : ℝ) (301 / 100) 1).flaw? = none :=
    plain_flaw?_eq_none (by norm_num) (by norm_num)
  rcases cuts_on_grid 30 _ hrate _ hflaw with
    ⟨⟨k, hfirst, hklow, hkhigh⟩, ⟨j, hlast, hjlow, hjhigh⟩, -⟩
  change ((k : ℝ) - 1) / 30 < 101 / 100 at hklow
  change (101 / 100 : ℝ) < k / 30 + 1e-9 / 30 at hkhigh
  change (j : ℝ) / 30 < 301 / 100 at hjlow
  change (301 / 100 : ℝ) ≤ j / 30 + 1 / 30 + max (1e-9 / 30) 1e-10 at hjhigh
  rw [max_eq_right (by norm_num)] at hjhigh
  norm_num at hkhigh hjhigh
  -- The bounds leave one whole number each.
  have hk : k = 31 := by
    have hlow : (30 : ℝ) < k := by linarith
    have hhigh : (k : ℝ) < 32 := by linarith
    norm_cast at hlow hhigh
    omega
  have hj : j = 90 := by
    have hlow : (89 : ℝ) < j := by linarith
    have hhigh : (j : ℝ) < 91 := by linarith
    norm_cast at hlow hhigh
    omega
  refine ⟨_, hrate, ?_, ?_⟩
  · rw [hk, Int.cast_ofNat] at hfirst
    exact eq_sub_of_add_eq' hfirst
  · rw [hj, Int.cast_ofNat] at hlast
    refine hlast.trans ?_
    norm_num

end Retime
