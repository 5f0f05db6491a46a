import Retime.Proofs.PlayRate

/-!
# Frames Back from Milliseconds

The number of frames of a clip, got back from its duration.

A clip is a whole number of frames, but its duration is kept to the millisecond,
and the frames are counted by rounding the duration on the grid again. This works
as long as what was rounded away is less than half a frame. Every rounding to the
millisecond is off by half of one at most, so the question is only how many of
them a duration went through: one for a clip that is played once, and three for a
clip that runs back and forth, as each leg was rounded and so is their sum without
the two frames at which they meet.

`Near` keeps that account. A duration is near a number of frames if it is off by
no more than some number of half milliseconds, and each step on the way says what
it adds to the two numbers.

## Main definitions

* `FrameGrid.Near`: A duration is a number of frames, but for half milliseconds.

## Theorems

* `FrameGrid.near_heldTime`: A clip that is held to the millisecond.
* `Near.add`, `Near.sub_two`, `Near.roundMillis`: What is done with two legs.
* `Near.count_eq`: The frames are counted right if the rate is not too high.
* `frames_survive_rounding`: No clip loses a frame.
-/

namespace Retime

open Exact

namespace FrameGrid

/-- A duration is a number of frames, give or take so many half milliseconds. -/
def Near (g : FrameGrid ℝ) (halves : ℕ) (frames : ℤ) (duration : ℝ) : Prop :=
  |duration - frames / g.rate| ≤ halves / 2000

/-- Sections that take some time are held for the frames that are nearest to it
    and one more. -/
theorem near_heldTime (g : FrameGrid ℝ) (raw : ℝ) :
    g.Near 1 (nearest (raw * g.rate) + 1) (g.heldTime raw) := by
  have hround := abs_nearest_sub_le (((nearest (raw * g.rate) : ℝ) + 1) / g.rate * 1000)
  rw [abs_le] at hround
  rw [Near, heldTime_eq, abs_le]
  push_cast
  constructor
  · linarith
  · linarith

namespace Near

variable {g : FrameGrid ℝ} {j k : ℕ} {n p : ℤ} {d e : ℝ}

theorem add (hd : g.Near j n d) (he : g.Near k p e) : g.Near (j + k) (n + p) (d + e) := by
  rw [Near, abs_le] at hd he ⊢
  push_cast
  rw [add_div, add_div]
  constructor
  · linarith
  · linarith

theorem sub_two (hd : g.Near j n d) : g.Near j (n - 2) (d - 2.0 * g.step) := by
  have hsame : d - 2.0 * g.step - ((n - 2 : ℤ) : ℝ) / g.rate = d - n / g.rate := by
    rw [two_steps_eq]
    push_cast
    ring
  rw [Near, hsame]
  exact hd

/-- Another rounding is off by another half of a millisecond. -/
theorem roundMillis (hd : g.Near j n d) : g.Near (j + 1) n (Retime.roundMillis d) := by
  have hround := abs_nearest_sub_le (d * 1000)
  rw [abs_le] at hround
  rw [Near, abs_le] at hd ⊢
  rw [roundMillis_eq]
  push_cast
  constructor
  · linarith
  · linarith

/-- On the grid, what was rounded away is less than half a frame. -/
theorem nearest_eq (hd : g.Near j n d) (hg : 0 < g.rate) (hrate : j * g.rate < 1000) :
    nearest (d * g.rate) = n := by
  refine Exact.nearest_eq ?_
  calc |d * g.rate - n| = |d - n / g.rate| * g.rate := by
        rw [← abs_of_pos hg, ← abs_mul, abs_of_pos hg, sub_mul, div_mul_cancel₀ _ hg.ne']
    _ ≤ j / 2000 * g.rate := mul_le_mul_of_nonneg_right hd hg.le
    _ < 1 / 2 := by linarith

/-- The frames are counted right, up to what a word can hold. -/
theorem count_eq (hd : g.Near j n d) (hg : 0 < g.rate) (hrate : j * g.rate < 1000) :
    (g.count d : ℤ) = max 0 (min (2 ^ 64 - 1) n) := by
  have hcount : (g.count d : ℤ) = max 0 (min (2 ^ 64 - 1)
      (if (n : ℝ) < 0 then ⌈(n : ℝ)⌉ else ⌊(n : ℝ)⌋)) := by
    unfold count
    rw [round_eq, hd.nearest_eq hg hrate]
    exact Int.toNat_of_nonneg (le_max_left _ _)
  rw [hcount, Int.ceil_intCast, Int.floor_intCast, ite_self]

end Near

/-- Sections that take no negative time take no negative number of frames. -/
theorem nearest_frames_nonneg {g : FrameGrid ℝ} (hg : 0 < g.rate) {raw : ℝ} (hraw : 0 ≤ raw) :
    0 ≤ nearest (raw * g.rate) := by
  rw [nearest_nonneg_iff]
  linarith [mul_nonneg hraw hg.le]

/-- The frames of a clip that is played once. -/
theorem count_playTime {g : FrameGrid ℝ} (hg : 0 < g.rate) (hrate : g.rate < 1000)
    {m : SpeedMap ℝ} (hraw : 0 ≤ (g.breakdown m).rawTotal)
    (hcount : g.count (g.playTime m) < 2 ^ 63) :
    (g.count (g.playTime m) : ℤ) = nearest ((g.breakdown m).rawTotal * g.rate) + 1 := by
  have hframes := nearest_frames_nonneg hg hraw
  have hcast := (g.near_heldTime (g.breakdown m).rawTotal).count_eq hg
    (by rwa [Nat.cast_one, one_mul])
  change (g.count (g.playTime m) : ℤ) = _ at hcast
  omega

/-- The frames of a clip that runs back and forth are those of its two legs
    without the two at which they meet. -/
theorem count_legs {g : FrameGrid ℝ} (hg : 0 < g.rate) (hrate : g.rate < 333)
    {m : SpeedMap ℝ} (hforward : 0 ≤ (g.breakdown m).rawTotal)
    (hbackward : 0 ≤ (g.breakdown m.reversed).rawTotal)
    (hcount : g.count (g.playTime m) < 2 ^ 63)
    (hcount' : g.count (g.playTime m.reversed) < 2 ^ 63) (fade : ℝ) :
    g.count (loopedTime g m .forwardReverse fade).1 + 2 =
      g.count (g.playTime m) + g.count (g.playTime m.reversed) := by
  have hframes := nearest_frames_nonneg hg hforward
  have hframes' := nearest_frames_nonneg hg hbackward
  have hlegs := count_playTime hg (by linarith) hforward hcount
  have hlegs' := count_playTime hg (by linarith) hbackward hcount'
  -- Each leg has been rounded once, and what they leave together once more.
  have hnear := ((g.near_heldTime (g.breakdown m).rawTotal).add
    (g.near_heldTime (g.breakdown m.reversed).rawTotal)).sub_two.roundMillis
  have hlooped := hnear.count_eq hg (by push_cast; linarith)
  change (g.count (loopedTime g m .forwardReverse fade).1 : ℤ) = _ at hlooped
  omega

end FrameGrid

/-- The frames of a clip are got back from its duration, though that is rounded
    to the millisecond: below a thousand frames in a second they are the whole
    number of frames that is nearest to what the sections take, and one more.
    Every pair that runs back and forth has a timing, and below 333 frames in a
    second its clip has the frames of the two legs, less the two at which they
    meet. In both cases no leg takes negative time, and the frames of a leg fit
    into 63 bits. -/
theorem frames_survive_rounding (rate : ℝ) (g : FrameGrid ℝ)
    (hg : FrameGrid.ofRate rate = .ok g) :
    (∀ m : SpeedMap ℝ, m.flaw? = none → 0 ≤ (g.breakdown m).rawTotal → rate < 1000 →
      g.count (g.playTime m) < 2 ^ 63 →
      (g.count (g.playTime m) : ℝ) = Scalar.round ((g.breakdown m).rawTotal * rate) + 1) ∧
    ∀ (p : Pair ℝ) (r : Resolved ℝ), p.map.flaw? = none → r.loopMode = .forwardReverse →
      ∃ m t, p.effectiveMap r.speedMaps = .ok m ∧ p.timing r g = .ok t ∧
        t.playTime = g.playTime m ∧
        (0 ≤ (g.breakdown m).rawTotal → 0 ≤ (g.breakdown m.reversed).rawTotal → rate < 333 →
          g.count t.playTime < 2 ^ 63 → g.count (g.playTime m.reversed) < 2 ^ 63 →
          g.count t.loopedTime + 2 = g.count t.playTime + g.count (g.playTime m.reversed)) := by
  rcases FrameGrid.ofRate_eq_ok hg with ⟨hpos, rfl⟩
  constructor
  · intro m _ hraw hrate hcount
    rw [round_eq]
    exact_mod_cast FrameGrid.count_playTime (g := ⟨rate⟩) hpos hrate hraw hcount
  · intro p r hp hmode
    rcases Pair.effectiveMap_eq_ok ((SpeedMap.flaw?_eq_none_iff _).mp hp) r.speedMaps with
      ⟨m, hmap, -, -⟩
    -- The clip that runs back and forth takes the time of the map and that of the map reversed.
    rcases Pair.timing_of_map hmap ⟨rate⟩ with ⟨t, ht, hplay, hlooped⟩
    rw [hmode] at hlooped
    refine ⟨m, t, hmap, ht, hplay, fun hforward hbackward hrate hcount hcount' => ?_⟩
    rw [hplay] at hcount ⊢
    rw [hlooped]
    exact FrameGrid.count_legs (g := ⟨rate⟩) hpos hrate hforward hbackward hcount hcount' _

/-- At one speed throughout, the piece that a section runs back is played as long
    as the piece that the one before it runs too far. -/
theorem bent_level_rawTotal : (FrameGrid.breakdown ⟨30⟩ (bent 1 1)).rawTotal = 1 := by
  rw [bent_rawTotal, pace, if_pos rfl]
  norm_num

theorem bent_level_count :
    FrameGrid.count ⟨30⟩ (FrameGrid.playTime ⟨30⟩ (bent 1 1)) < 2 ^ 63 := by
  have hframes : nearest (1 * 30 : ℝ) = 30 := nearest_eq (by norm_num)
  have hnear := FrameGrid.near_heldTime ⟨30⟩ (FrameGrid.breakdown ⟨30⟩ (bent 1 1)).rawTotal
  rw [bent_level_rawTotal, hframes] at hnear
  have hcast := hnear.count_eq (by norm_num) (by norm_num)
  rw [← bent_level_rawTotal] at hcast
  change (FrameGrid.count ⟨30⟩ (FrameGrid.playTime ⟨30⟩ (bent 1 1)) : ℤ) = _ at hcast
  omega

/-- A clip of thirty frames and the one that is held. Back and forth it has twice
    as many, but two. -/
theorem frames_survive_rounding_second :
    ∃ (g : FrameGrid ℝ) (p : Pair ℝ) (t : PairTiming ℝ), FrameGrid.ofRate 30 = .ok g ∧
      p.timing { p.resolve .initial none with loopMode := .forwardReverse } g = .ok t ∧
      g.count t.playTime = 31 ∧ g.count t.loopedTime = 60 := by
  have hrate : FrameGrid.ofRate (30 : ℝ) = .ok ⟨30⟩ := ofRate_of_pos (by norm_num)
  have hflaw : (bent 1 1).flaw? = none := bent_flaw?_eq_none (by norm_num) (by norm_num)
  have hraw : 0 ≤ (FrameGrid.breakdown ⟨30⟩ (bent 1 1)).rawTotal := by
    rw [bent_level_rawTotal]
    norm_num
  rcases frames_survive_rounding 30 _ hrate with ⟨honce, hlegs⟩
  have hcount := honce (bent 1 1) hflaw hraw (by norm_num) bent_level_count
  have hframes : nearest (1 * 30 : ℝ) = 30 := nearest_eq (by norm_num)
  rw [bent_level_rawTotal, round_eq, hframes] at hcount
  have hcount' : FrameGrid.count ⟨30⟩ (FrameGrid.playTime ⟨30⟩ (bent 1 1)) = 31 := by
    have hsum : ((30 : ℤ) : ℝ) + 1 = ((31 : ℕ) : ℝ) := by norm_num
    exact Nat.cast_injective (hcount.trans hsum)
  -- A map of one speed is its own reverse.
  rcases hlegs (.ofMap (bent 1 1) .full)
    { (Pair.ofMap (bent 1 1) .full).resolve .initial none with loopMode := .forwardReverse }
    hflaw rfl with ⟨m, t, hmap, ht, hplay, hlooped⟩
  obtain rfl : bent 1 1 = m := Except.ok.inj hmap
  have hsum := hlooped hraw hraw (by norm_num) (hplay ▸ bent_level_count) bent_level_count
  have hback : FrameGrid.count ⟨30⟩ (FrameGrid.playTime ⟨30⟩ (bent 1 1).reversed) = 31 := hcount'
  rw [hplay, hcount', hback] at hsum
  exact ⟨_, _, t, hrate, ht, hplay ▸ hcount', by omega⟩

end Retime
