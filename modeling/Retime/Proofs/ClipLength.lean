import Retime.Proofs.Breakdown
import Retime.Pair.Timing

/-!
# The Length of a Clip

When the length of an exported clip is not negative.

A clip is cut between frames, its start up and its end down, so a span shorter
than a frame may have its end before its start. The last section of the clip
then runs backwards, and what it takes off the total may be more than the one
frame that is added for holding the last. `Forward` says that this does not
happen. It is enough that the last segment of the map lasts a frame and a
little more, and the other segments do not matter.

A loop takes something off as well. A fade takes a tenth of a second at least,
whatever the clip has, so the length that is left is negative for just those
clips that are shorter than that. Where a clip runs back and forth, two frames
are taken off two lengths that were each brought to the millisecond, and this
may cost a clip of a single frame its length; `two_frames_lt` says that nothing
else does.

## Main definitions

* `FrameGrid.Forward`: No section of a clip runs backwards.

## Theorems

* `forward_of_lastSpan`: When no section runs backwards.
* `Forward.rawTotal_nonneg`: Sections that run forwards take no negative time.
* `heldTime_nonneg_iff`: When a clip has no negative length, by its sections.
* `fadeTime_nonneg_iff`, `legsTime_nonneg_iff`: When a loop leaves a length.
* `clip_lengths_nonneg`: The lengths of all clips.
-/

namespace Retime

open Exact

/-- The time of the point in front of the last is a matter of the times. -/
theorem SpeedMap.lastSpan_eq_of_times {m n : SpeedMap ℝ} (h : m.times = n.times) :
    m.lastSpan = n.lastSpan := by
  -- The times are cut in front of the last, where the point to look at is the last of the rest.
  have hsplit : ∀ k : SpeedMap ℝ,
      k.times = (k.first :: k.inner).map SpeedPoint.time ++ [k.stop] := by
    intro k
    change (k.first :: k.inner ++ [k.last]).map SpeedPoint.time = _
    rw [List.map_append]
    rfl
  have hheel : ∀ k : SpeedMap ℝ,
      ((k.first :: k.inner).map SpeedPoint.time).getLast? = some k.heel.time := by
    intro k
    rw [List.getLast?_map, List.getLast?_eq_some_getLast (List.cons_ne_nil _ _)]
    rfl
  rw [hsplit m, hsplit n] at h
  rcases List.append_inj' h rfl with ⟨hinner, hstop⟩
  have htime : some m.heel.time = some n.heel.time := by rw [← hheel m, ← hheel n, hinner]
  rw [lastSpan, lastSpan, Option.some.inj htime, List.singleton_inj.mp hstop]

namespace FrameGrid

/-- A rate that is accepted is positive. -/
theorem ofRate_eq_ok {rate : ℝ} {g : FrameGrid ℝ} (h : ofRate rate = .ok g) :
    0 < rate ∧ g = ⟨rate⟩ := by
  unfold ofRate ofRate? at h
  by_cases hrate : Scalar.isPositive rate = true
  · rw [if_pos hrate] at h
    cases h
    exact ⟨(isPositive_iff rate).mp hrate, rfl⟩
  · rw [if_neg hrate] at h
    cases h

/-- No section of a clip runs backwards. -/
def Forward (g : FrameGrid ℝ) (m : SpeedMap ℝ) : Prop :=
  ∀ s ∈ (g.breakdown m).sections, 0 ≤ s.length

theorem sectionOf_length (g : FrameGrid ℝ) (m : SpeedMap ℝ) (s : SpeedPoint ℝ × SpeedPoint ℝ) :
    (g.sectionOf m s).length = s.2.time - s.1.time := by
  change s.2.time - m.start - _ - (s.1.time - m.start - _) = _
  ring

/-- Only the last section may run backwards. -/
theorem forward_of_lastSection {g : FrameGrid ℝ} {m : SpeedMap ℝ} (hm : m.Sound)
    (h : 0 ≤ (g.lastSection m).length) : g.Forward m := by
  intro s hs
  rcases mem_sections hs with ⟨seg, hseg, rfl⟩ | rfl
  · have horder := (SpeedMap.sorted_iff_segments hm.finite).mp hm.sorted seg hseg
    rw [sectionOf_length]
    exact sub_nonneg.mpr (not_lt.mp horder)
  · exact h

/-- The last section does not, if its segment lasts a frame and a little. -/
theorem forward_of_lastSpan {g : FrameGrid ℝ} {m : SpeedMap ℝ} (hg : 0 < g.rate) (hm : m.Sound)
    (h : (1 + 1e-9) / g.rate + 1e-6 ≤ m.lastSpan) : g.Forward m := by
  refine forward_of_lastSection hm ?_
  -- The frame, the little and the rounding are what the last section may lack.
  have hlast := lastFrameBefore_gt hg m.stop
  have hround := (abs_le.mp (abs_roundTo_sub_le 6 (g.fromFirst m (g.lastFrameBefore m.stop)))).1
  have hspan : m.lastSpan = m.stop - m.heel.time := rfl
  have hlength : (g.lastSection m).length =
      Scalar.roundTo (6 : ℕ) (g.fromFirst m (g.lastFrameBefore m.stop)) -
        g.fromFirst m m.heel.time := rfl
  have hshift : g.fromFirst m (g.lastFrameBefore m.stop) - g.fromFirst m m.heel.time =
      g.lastFrameBefore m.stop - m.heel.time := by
    change _ - m.start - _ - (_ - m.start - _) = _
    ring
  rw [hlength]
  norm_num at hround hlast h ⊢
  linarith

/-- Sections that run forwards take no negative time. -/
theorem Forward.rawTotal_nonneg {g : FrameGrid ℝ} {m : SpeedMap ℝ} (hm : m.Sound)
    (h : g.Forward m) : 0 ≤ (g.breakdown m).rawTotal := by
  unfold Breakdown.rawTotal
  rw [sum_eq]
  refine List.sum_nonneg ?_
  rw [List.forall_mem_map]
  intro s hs
  rcases points_of_mem_sections hs with ⟨hleft, hright⟩
  exact Section.playTime_nonneg (h s hs) ((isPositive_iff _).mp (hm.speed _ hleft))
    ((isPositive_iff _).mp (hm.speed _ hright))

/-- When a clip has no negative length, by what its sections take. -/
theorem heldTime_nonneg_iff {g : FrameGrid ℝ} (hg : 0 < g.rate) (raw : ℝ) :
    0 ≤ g.heldTime raw ↔ -(⌈g.rate / 2000⌉₊ + 1 / 2 : ℝ) < raw * g.rate := by
  have hceil : ((⌈g.rate / 2000⌉₊ : ℕ) : ℤ) = ⌈g.rate / 2000⌉ :=
    Int.natCast_ceil_eq_ceil (by positivity)
  -- Only the whole number of frames matters.
  rw [← neg_le_nearest_iff, hceil, heldTime_eq]
  generalize nearest (raw * g.rate) = frames
  have hmillis : (0 : ℝ) ≤ (nearest ((frames + 1) / g.rate * 1000) : ℝ) / 1000 ↔
      0 ≤ nearest ((frames + 1) / g.rate * 1000) := by
    rw [le_div_iff₀ (by norm_num), zero_mul, Int.cast_nonneg_iff]
  have hless : -(1 / 2 : ℝ) < (frames + 1) / g.rate * 1000 ↔
      (-(frames + 1) : ℝ) < g.rate / 2000 := by
    rw [div_mul_eq_mul_div, lt_div_iff₀ hg]
    constructor
    · intro h
      linarith
    · intro h
      linarith
  have hcast : (-(frames + 1) : ℝ) = ((-(frames + 1) : ℤ) : ℝ) := by push_cast; rfl
  rw [hmillis, nearest_nonneg_iff, hless, hcast, ← Int.lt_ceil]
  omega

/-- A clip of so many frames plays for them and one more, to the millisecond. -/
theorem le_heldTime {g : FrameGrid ℝ} (hg : 0 < g.rate) {raw : ℝ} (hraw : 0 ≤ raw) {n : ℕ}
    (h : n - 1 / 2 ≤ raw * g.rate) : (n + 1) / g.rate - 1 / 2000 ≤ g.heldTime raw := by
  have hframes : (n : ℝ) ≤ nearest (raw * g.rate) := by
    exact_mod_cast le_nearest (mul_nonneg hraw hg.le) h
  have hround := (abs_le.mp (abs_nearest_sub_le
    (((nearest (raw * g.rate) : ℝ) + 1) / g.rate * 1000))).1
  have hdiv : ((n : ℝ) + 1) / g.rate ≤ ((nearest (raw * g.rate) : ℝ) + 1) / g.rate :=
    div_le_div_of_nonneg_right (by linarith) hg.le
  rw [heldTime_eq, le_div_iff₀ (by norm_num)]
  linarith

theorem Forward.playTime_nonneg {g : FrameGrid ℝ} (hg : 0 < g.rate) {m : SpeedMap ℝ}
    (hm : m.Sound) (h : g.Forward m) : 0 ≤ g.playTime m := by
  have hraw : 0 ≤ (g.breakdown m).rawTotal * g.rate := mul_nonneg (h.rawTotal_nonneg hm) hg.le
  have hceil : (0 : ℝ) ≤ ⌈g.rate / 2000⌉₊ := Nat.cast_nonneg _
  exact (heldTime_nonneg_iff hg _).mpr (by linarith)

end FrameGrid

section Loops

theorem roundMillis_eq (x : ℝ) : roundMillis x = (nearest (x * 1000) : ℝ) / 1000 := by
  have hscale : (1000.0 : ℝ) = 1000 := by norm_num
  rw [roundMillis, round_eq, hscale]

theorem two_steps_eq (g : FrameGrid ℝ) : (2.0 : ℝ) * g.step = 2 / g.rate := by
  have htwo : (2.0 : ℝ) = 2 := by norm_num
  rw [FrameGrid.step_eq, htwo, mul_one_div]

theorem roundMillis_nonneg_iff (x : ℝ) : 0 ≤ roundMillis x ↔ -(1 / 2000 : ℝ) < x := by
  rw [roundMillis_eq, le_div_iff₀ (by norm_num), zero_mul, Int.cast_nonneg_iff,
    nearest_nonneg_iff]
  constructor
  · intro h
    linarith
  · intro h
    linarith

/-- When a clip that fades has a length left. The fade takes a tenth of a
    second at least, and no more than there is where there is as much. -/
theorem fadeTime_nonneg_iff (requested : ℝ) {playTime : ℝ} (millis : ℤ)
    (h : playTime = millis / 1000) :
    0 ≤ roundMillis (playTime - effectiveFade requested playTime) ↔ 1 / 10 ≤ playTime := by
  have hfade : effectiveFade requested playTime =
      max (1 / 10) (min requested (2 / 5 * playTime)) := by
    have hleast : (0.1 : ℝ) = 1 / 10 := by norm_num
    have hshare : (0.4 : ℝ) = 2 / 5 := by norm_num
    rw [effectiveFade, greater_eq, lesser_eq, hleast, hshare]
  rw [roundMillis_nonneg_iff, hfade]
  constructor
  · intro hless
    have hleast : (1 / 10 : ℝ) ≤ max (1 / 10) (min requested (2 / 5 * playTime)) := le_max_left _ _
    -- Between two milliseconds there is no room for less than a tenth.
    have hmillis : (99 : ℝ) < millis := by linarith
    have hwhole : (100 : ℤ) ≤ millis := by exact_mod_cast hmillis
    have hcast : (100 : ℝ) ≤ millis := by exact_mod_cast hwhole
    linarith
  · intro hle
    have hmost : max (1 / 10) (min requested (2 / 5 * playTime)) ≤ playTime :=
      max_le hle ((min_le_right _ _).trans (by linarith))
    linarith

/-- When a clip that runs back and forth has a length left. -/
theorem legsTime_nonneg_iff (g : FrameGrid ℝ) (forward backward : ℝ) :
    0 ≤ roundMillis (forward + backward - 2.0 * g.step) ↔
      2 / g.rate - 1 / 2000 < forward + backward := by
  rw [roundMillis_nonneg_iff, two_steps_eq]
  constructor
  · intro h
    linarith
  · intro h
    linarith

/-- Two legs that run forwards have both the two frames that are taken off, if
    one of them has more than a single frame. -/
theorem two_frames_lt {g : FrameGrid ℝ} (hg : 0 < g.rate) (hrate : g.rate < 2000) {raw back : ℝ}
    (hraw : 0 ≤ raw) (hback : 0 ≤ back)
    (h : 1 / 2 ≤ raw * g.rate ∨ 1 / 2 ≤ back * g.rate) :
    2 / g.rate - 1 / 2000 < g.heldTime raw + g.heldTime back := by
  -- A leg has one frame at least, and the one with half a frame more has two.
  have hone : ∀ {x : ℝ}, 0 ≤ x → 1 / g.rate - 1 / 2000 ≤ g.heldTime x := by
    intro x hx
    have hx' := mul_nonneg hx hg.le
    have hle := FrameGrid.le_heldTime (n := 0) hg hx (by push_cast; linarith)
    rwa [Nat.cast_zero, zero_add] at hle
  have htwo : ∀ {x : ℝ}, 0 ≤ x → 1 / 2 ≤ x * g.rate → 2 / g.rate - 1 / 2000 ≤ g.heldTime x := by
    intro x hx hframe
    have hle := FrameGrid.le_heldTime (n := 1) hg hx (by push_cast; linarith)
    rwa [Nat.cast_one, one_add_one_eq_two] at hle
  have hstep : (1 / 2000 : ℝ) < 1 / g.rate := one_div_lt_one_div_of_lt hg hrate
  rcases h with h | h
  · linarith [htwo hraw h, hone hback]
  · linarith [htwo hback h, hone hraw]

end Loops

namespace Pair

variable {α : Type} [Scalar α]

/-- The timing of a pair goes by its effective map. -/
theorem timing_of_map {p : Pair α} {r : Resolved α} {m : SpeedMap α}
    (h : p.effectiveMap r.speedMaps = .ok m) (g : FrameGrid α) :
    ∃ t, p.timing r g = .ok t ∧ t.playTime = g.playTime m ∧
      t.loopedTime = (loopedTime g m r.loopMode r.fadeDuration).1 := by
  unfold timing
  rw [h]
  exact ⟨_, rfl, rfl, rfl⟩

/-- There is an effective map: the map of the pair, or that of two points. -/
theorem effectiveMap_eq_ok [OrderedScalar α] {p : Pair α} (hp : p.map.Sound) (speedMaps : Bool) :
    ∃ m, p.effectiveMap speedMaps = .ok m ∧
      (m = p.map ∨ m = .plain p.start p.stop p.speed) ∧ m.Sound := by
  have hspeed := (SpeedMap.forall_mem_points.mp hp.speed).1
  have hplain := hp.plain hspeed
  cases speedMaps with
  | true => exact ⟨p.map, rfl, Or.inl rfl, hp⟩
  | false =>
      -- The ends and the first speed of a sound map make a sound one.
      have hok : SpeedMap.constant p.start p.stop p.speed = .ok (.plain p.start p.stop p.speed) :=
        SpeedMap.ofList_points_eq_ok_iff.mpr ⟨(SpeedMap.flaw?_eq_none_iff _).mpr hplain, rfl⟩
      refine ⟨_, ?_, Or.inr rfl, hplain⟩
      unfold effectiveMap
      rw [if_neg Bool.false_ne_true, hok]

end Pair

/-- Without its inner points, the last segment of a map is no shorter. -/
theorem lastSpan_le_plain {m : SpeedMap ℝ} (hm : m.Sound) (speed : ℝ) :
    m.lastSpan ≤ (SpeedMap.plain m.start m.stop speed).lastSpan := by
  have hheel : m.start ≤ m.heel.time := by
    have hmem : m.heel ∈ m.first :: m.inner := List.getLast_mem _
    rcases List.mem_cons.mp hmem with h | h
    · exact le_of_eq (congrArg SpeedPoint.time h.symm)
    · exact hm.parts.1 _ h
  change m.stop - m.heel.time ≤ m.stop - m.start
  linarith

section PlainClips

theorem ofRate_of_pos {rate : ℝ} (h : 0 < rate) : FrameGrid.ofRate rate = .ok ⟨rate⟩ := by
  unfold FrameGrid.ofRate FrameGrid.ofRate?
  rw [if_pos ((isPositive_iff rate).mpr h)]

theorem plain_flaw?_eq_none {start stop speed : ℝ} (h : start < stop) (hspeed : 0 < speed) :
    (SpeedMap.plain start stop speed).flaw? = none := by
  refine (SpeedMap.flaw?_eq_none_iff _).mpr (SpeedMap.sound_iff.mpr ⟨fun _ _ => rfl, ?_, ?_, ?_⟩)
  · intro v hv
    have hv' : v = speed := by simpa [SpeedMap.speeds, SpeedMap.plain, SpeedMap.points] using hv
    rw [hv', isPositive_iff]
    exact hspeed
  · exact List.pairwise_pair.mpr h.le
  · exact not_le.mpr h

/-- A clip of two points takes the time of its one section. -/
theorem rawTotal_plain (g : FrameGrid ℝ) {start stop speed : ℝ} :
    (g.breakdown (.plain start stop speed)).rawTotal =
      (g.lastSection (.plain start stop speed)).length / speed := by
  have hsections : (g.breakdown (.plain start stop speed)).sections =
      [g.lastSection (.plain start stop speed)] := rfl
  rw [Breakdown.rawTotal, sum_eq, hsections, List.map_singleton, List.sum_singleton,
    Section.playTime_eq]
  exact if_pos rfl

/-- The last frame before a time within the first frame is the first. -/
theorem lastFrameBefore_eq_zero {g : FrameGrid ℝ} {time : ℝ} (htime : 1e-10 ≤ time)
    (hlow : 1e-9 ≤ time * g.rate) (hhigh : time * g.rate < 1 / 2) : g.lastFrameBefore time = 0 := by
  have htiny : (0 : ℝ) < 1e-9 := by norm_num
  have hpos : 0 < time * g.rate := lt_of_lt_of_le htiny hlow
  -- The time is closer to the first frame than to the next, but not on it.
  have hfloor : ⌊time * g.rate⌋ = 0 := by
    rw [Int.floor_eq_iff, Int.cast_zero]
    exact ⟨hpos.le, by linarith⟩
  change (if FrameGrid.isOn (time * g.rate) (Scalar.round (time * g.rate)) = true then
      Scalar.round (time * g.rate) / g.rate - g.step
    else
      if time - (⌊time * g.rate⌋ : ℝ) / g.rate < (1e-10 : ℝ) then
        (⌊time * g.rate⌋ : ℝ) / g.rate - g.step
      else (⌊time * g.rate⌋ : ℝ) / g.rate) = 0
  rw [round_eq, nearest_eq_zero hpos hhigh, hfloor, Int.cast_zero, zero_div, sub_zero,
    if_neg (FrameGrid.not_isOn_zero hlow), if_neg (not_lt.mpr htime)]

theorem snapUp_zero : FrameGrid.snapUp (0 : ℝ) = 0 := by
  have hnearest : nearest (0 : ℝ) = 0 := nearest_eq (by norm_num)
  unfold FrameGrid.snapUp
  rw [round_eq, hnearest, Int.cast_zero, if_pos]
  rw [FrameGrid.isOn_iff]
  norm_num

theorem snapUp_eq_one {frames : ℝ} (hlow : 1e-9 ≤ frames) (hhigh : frames < 1 / 2) :
    FrameGrid.snapUp frames = 1 := by
  have htiny : (0 : ℝ) < 1e-9 := by norm_num
  have hpos : 0 < frames := lt_of_lt_of_le htiny hlow
  -- The ceiling is the floor of the opposite, turned back.
  have hfloor : ⌊-frames⌋ = -1 := by
    rw [Int.floor_eq_iff]
    push_cast
    exact ⟨by linarith, by linarith⟩
  unfold FrameGrid.snapUp
  rw [round_eq, nearest_eq_zero hpos hhigh, Int.cast_zero,
    if_neg (FrameGrid.not_isOn_zero hlow)]
  change -(⌊-frames⌋ : ℝ) = 1
  rw [hfloor]
  norm_num

/-- The last section of a plain clip that ends within the first frame. -/
theorem lastSection_length_plain {g : FrameGrid ℝ} {start stop speed : ℝ} (hstop : 1e-10 ≤ stop)
    (hlow : 1e-9 ≤ stop * g.rate) (hhigh : stop * g.rate < 1 / 2) :
    (g.lastSection (.plain start stop speed)).length =
      Scalar.roundTo (6 : ℕ) (-(FrameGrid.snapUp (start * g.rate) / g.rate)) -
        (start - FrameGrid.snapUp (start * g.rate) / g.rate) := by
  change Scalar.roundTo (6 : ℕ) (g.lastFrameBefore stop - start -
      (FrameGrid.snapUp (start * g.rate) / g.rate - start)) -
    (start - start - (FrameGrid.snapUp (start * g.rate) / g.rate - start)) = _
  rw [lastFrameBefore_eq_zero hstop hlow hhigh]
  -- The start cancels out of what is rounded.
  have hupper : 0 - start - (FrameGrid.snapUp (start * g.rate) / g.rate - start) =
      -(FrameGrid.snapUp (start * g.rate) / g.rate) := by ring
  rw [hupper]
  ring

/-- A clip that lies within its first frame is one frame long. -/
theorem playTime_within_frame :
    FrameGrid.playTime ⟨30⟩ (SpeedMap.plain (0 : ℝ) (1 / 100) 1) = 33 / 1000 := by
  -- Both ends are cut to the first frame, so nothing is left but that frame.
  have hraw : (FrameGrid.breakdown ⟨30⟩ (SpeedMap.plain (0 : ℝ) (1 / 100) 1)).rawTotal = 0 := by
    have hround : Scalar.roundTo (6 : ℕ) (-(0 / 30) : ℝ) = 0 := by
      simpa using roundTo_natCast 6 0
    rw [rawTotal_plain, lastSection_length_plain (by norm_num) (by norm_num) (by norm_num)]
    rw [zero_mul, snapUp_zero, hround]
    norm_num
  have hframes : nearest ((0 : ℝ) * 30) = 0 := nearest_eq (by norm_num)
  have hmillis : nearest (((0 : ℝ) + 1) / 30 * 1000) = 33 := by
    refine nearest_eq ?_
    rw [abs_lt]
    norm_num
  change FrameGrid.heldTime ⟨30⟩ _ = _
  rw [hraw, FrameGrid.heldTime_eq, hframes, Int.cast_zero, hmillis]
  norm_num

/-- A clip that begins and ends between two frames runs backwards. -/
theorem playTime_between_frames :
    FrameGrid.playTime ⟨30⟩ (SpeedMap.plain (1 / 1000 : ℝ) (2 / 1000) (1 / 1000)) < 0 := by
  have hround : Scalar.roundTo (6 : ℕ) (-(1 / 30) : ℝ) = -33333 / 1000000 := by
    have hnearest : nearest (-(1 / 30) * 10 ^ 6 : ℝ) = -33333 := by
      refine nearest_eq ?_
      rw [abs_lt]
      norm_num
    rw [roundTo_eq, hnearest]
    norm_num
  have hceil : ⌈(30 : ℝ) / 2000⌉₊ = 1 := by
    rw [Nat.ceil_eq_iff one_ne_zero]
    norm_num
  refine not_le.mp fun h => ?_
  have hless := (FrameGrid.heldTime_nonneg_iff (g := ⟨30⟩) (by norm_num) _).mp h
  -- The first frame is one frame away and the last is at zero.
  rw [rawTotal_plain, lastSection_length_plain (by norm_num) (by norm_num) (by norm_num),
    snapUp_eq_one (by norm_num) (by norm_num), hround, hceil] at hless
  norm_num at hless

end PlainClips

/-- The lengths of clips, in exact arithmetic. A clip has no negative length if
    what its sections take together is not a frame and a half below zero, or
    somewhat more at very high rates. No section runs backwards if the last
    segment of the map lasts a frame and a little, and then they take no
    negative time at all. Every pair has a timing, of its effective map. Without
    a loop the clip keeps its length. Running back and forth leaves a length
    where the two legs have the two frames that are taken off, and so whenever
    they run forwards and are not single frames. A fade leaves a length for
    exactly those clips that play for a tenth of a second. -/
theorem clip_lengths_nonneg (rate : ℝ) (g : FrameGrid ℝ) (hg : FrameGrid.ofRate rate = .ok g) :
    (∀ m : SpeedMap ℝ, m.flaw? = none →
      (-(⌈rate / 2000⌉₊ + 1 / 2 : ℝ) < (g.breakdown m).rawTotal * rate → 0 ≤ g.playTime m) ∧
      (g.Forward m → 0 ≤ (g.breakdown m).rawTotal ∧ 0 ≤ g.playTime m) ∧
      ((1 + 1e-9) / rate + 1e-6 ≤ m.lastSpan → g.Forward m)) ∧
    ∀ (p : Pair ℝ) (r : Resolved ℝ), p.map.flaw? = none →
      ∃ m t, p.effectiveMap r.speedMaps = .ok m ∧ m.flaw? = none ∧ p.timing r g = .ok t ∧
        t.playTime = g.playTime m ∧
        ((1 + 1e-9) / rate + 1e-6 ≤ p.map.lastSpan → g.Forward m ∧ g.Forward m.reversed) ∧
        match r.loopMode with
        | .none => t.loopedTime = t.playTime
        | .forwardReverse =>
          (2 / rate - 1 / 2000 < t.playTime + g.playTime m.reversed → 0 ≤ t.loopedTime) ∧
          (g.Forward m → g.Forward m.reversed → rate < 2000 →
            1 / 2 ≤ (g.breakdown m).rawTotal * rate ∨
              1 / 2 ≤ (g.breakdown m.reversed).rawTotal * rate → 0 ≤ t.loopedTime)
        | .fade => 0 ≤ t.loopedTime ↔ 1 / 10 ≤ t.playTime := by
  rcases FrameGrid.ofRate_eq_ok hg with ⟨hpos, rfl⟩
  have hsound : ∀ {m : SpeedMap ℝ}, m.flaw? = none → m.Sound := fun h =>
    (SpeedMap.flaw?_eq_none_iff _).mp h
  refine ⟨fun m hm => ⟨(FrameGrid.heldTime_nonneg_iff (g := ⟨rate⟩) hpos _).mpr,
    fun h => ⟨h.rawTotal_nonneg (hsound hm), h.playTime_nonneg hpos (hsound hm)⟩,
    FrameGrid.forward_of_lastSpan hpos (hsound hm)⟩, fun p r hp => ?_⟩
  rcases Pair.effectiveMap_eq_ok (hsound hp) r.speedMaps with ⟨m, hmap, hform, hm⟩
  rcases Pair.timing_of_map hmap ⟨rate⟩ with ⟨t, ht, hplay, hlooped⟩
  have hspan : p.map.lastSpan ≤ m.lastSpan := by
    rcases hform with rfl | rfl
    · exact le_refl _
    · exact lastSpan_le_plain (hsound hp) _
  refine ⟨m, t, hmap, (SpeedMap.flaw?_eq_none_iff m).mpr hm, ht, hplay, fun h => ?_, ?_⟩
  · -- The two legs have the same times.
    have hback := SpeedMap.lastSpan_eq_of_times m.reversed_times
    exact ⟨FrameGrid.forward_of_lastSpan hpos hm (h.trans hspan),
      FrameGrid.forward_of_lastSpan hpos hm.reversed (hback ▸ h.trans hspan)⟩
  · cases hmode : r.loopMode with
    | none =>
        rw [hmode] at hlooped
        exact hlooped.trans hplay.symm
    | forwardReverse =>
        rw [hmode] at hlooped
        have hiff := legsTime_nonneg_iff ⟨rate⟩ (FrameGrid.playTime ⟨rate⟩ m)
          (FrameGrid.playTime ⟨rate⟩ m.reversed)
        rw [hlooped, hplay]
        refine ⟨hiff.mpr, fun hforward hbackward hrate h => hiff.mpr ?_⟩
        exact two_frames_lt hpos hrate (hforward.rawTotal_nonneg hm)
          (hbackward.rawTotal_nonneg hm.reversed) h
    | fade =>
        rw [hmode] at hlooped
        rw [hlooped, hplay]
        exact fadeTime_nonneg_iff r.fadeDuration _ (FrameGrid.heldTime_eq ⟨rate⟩ _)

/-- A clip of ten seconds has a length, and a fade that takes long leaves one
    if the clip plays for a tenth of a second. -/
theorem clip_lengths_nonneg_plain :
    ∃ g : FrameGrid ℝ, FrameGrid.ofRate 30 = .ok g ∧ 0 ≤ g.playTime (.plain 0 10 1) ∧
      ∃ (p : Pair ℝ) (t : PairTiming ℝ),
        p.timing { p.resolve .initial none with loopMode := .fade, fadeDuration := 100 } g = .ok t ∧
          (0 ≤ t.loopedTime ↔ 1 / 10 ≤ t.playTime) := by
  have hrate : FrameGrid.ofRate (30 : ℝ) = .ok ⟨30⟩ := ofRate_of_pos (by norm_num)
  have hflaw : (SpeedMap.plain (0 : ℝ) 10 1).flaw? = none :=
    plain_flaw?_eq_none (by norm_num) (by norm_num)
  -- Ten seconds are far longer than a frame.
  have hspan : (1 + 1e-9) / 30 + 1e-6 ≤ (SpeedMap.plain (0 : ℝ) 10 1).lastSpan := by
    change _ ≤ (10 : ℝ) - 0
    norm_num
  rcases clip_lengths_nonneg 30 _ hrate with ⟨hmaps, hpairs⟩
  rcases hmaps _ hflaw with ⟨-, hlength, hforward⟩
  rcases hpairs (.ofMap (.plain 0 10 1) .full)
      { (Pair.ofMap (.plain 0 10 1) .full).resolve .initial none with
        loopMode := .fade, fadeDuration := 100 } hflaw with ⟨_, t, -, -, ht, -, -, hfade⟩
  exact ⟨_, hrate, (hlength (hforward hspan)).2, _, t, ht, hfade⟩

/-- Lengths below zero: of a clip without a frame, and of a clip of a single
    frame that runs back and forth or fades. -/
theorem clip_lengths_negative :
    ∃ g : FrameGrid ℝ, FrameGrid.ofRate 30 = .ok g ∧
      (∃ m : SpeedMap ℝ, m.flaw? = none ∧ g.playTime m < 0) ∧
      ∃ p : Pair ℝ, p.map.flaw? = none ∧
        (∃ t, p.timing { p.resolve .initial none with loopMode := .forwardReverse } g = .ok t ∧
          t.loopedTime < 0) ∧
        ∃ t, p.timing { p.resolve .initial none with loopMode := .fade } g = .ok t ∧
          t.loopedTime < 0 := by
  refine ⟨⟨30⟩, ofRate_of_pos (by norm_num),
    ⟨_, plain_flaw?_eq_none (by norm_num) (by norm_num), playTime_between_frames⟩,
    .ofMap (.plain 0 (1 / 100) 1) .full, plain_flaw?_eq_none (by norm_num) (by norm_num), ?_, ?_⟩
  · refine ⟨_, rfl, not_le.mp fun h => ?_⟩
    -- Two legs of 33 milliseconds are more than half a millisecond short of two frames.
    have hless : 2 / 30 - 1 / 2000 < FrameGrid.playTime ⟨30⟩ (SpeedMap.plain (0 : ℝ) (1 / 100) 1) +
        FrameGrid.playTime ⟨30⟩ (SpeedMap.plain (0 : ℝ) (1 / 100) 1) :=
      (legsTime_nonneg_iff _ _ _).mp h
    rw [playTime_within_frame] at hless
    norm_num at hless
  · refine ⟨_, rfl, not_le.mp fun h => ?_⟩
    have hmillis : FrameGrid.playTime ⟨30⟩ (SpeedMap.plain (0 : ℝ) (1 / 100) 1) =
        ((33 : ℤ) : ℝ) / 1000 := by
      rw [playTime_within_frame]
      norm_num
    have hleast := (fadeTime_nonneg_iff _ 33 hmillis).mp h
    rw [playTime_within_frame] at hleast
    norm_num at hleast

end Retime
