import Retime.Proofs.OneSpeed
import Retime.Proofs.UsableRates

/-!
# Between the Points of a Map

A sampled speed is that of a point at its time, and between two points it moves
from the one to the other.

The segment that holds a time is looked for from the start on. It ends at the first
point behind the start that is not before the time, so where several points share a
time the first of them decides. The start is the right point of no segment, and is
heard only if the second point is later.

In doubles the points are hit exactly. At the end of a segment the progress is a
double by itself, which is one or no number. It is none if the segment has no length
or more than can be measured, and then the speed of the right point stands in, as it
should. At the start of a segment with some length the progress is zero by something
else, because the difference of two doubles is not rounded to zero.

Between the points the speed follows a curve. Both curves are continuous in exact
arithmetic and do not go down, also where the halves of the gentler one meet, so the
speed neither jumps nor turns on the way.

## Main definitions

* `SpeedMap.holds`: A segment holds a time.
* `speedIn`: The speed at a time of a segment.
* `path`: The way from one speed to another along a curve.
* `Glides`: A speed moves from one point to another.

## Theorems

* `SpeedMap.find?_holds_snd`: The first segment that holds a time ends at the first
  point that is not before it.
* `speedIn_stop`, `speedIn_start`: The points of a segment are hit exactly.
* `Easing.monotone_apply`, `Easing.continuous_apply`: The curves neither go down nor
  jump.
* `speedIn_eq_path`: The speed in a segment follows the curve.
* `sample_interpolates`: What is sampled at the points, between them and outside.
-/

namespace Retime

/-! ### The segment at a time -/

section Lookup

variable {α : Type} [Scalar α]

/-- The speed at a time of a segment, before it is rounded. -/
def speedIn (e : Easing) (s : SpeedPoint α × SpeedPoint α) (time : α) : α :=
  if s.1.speed == s.2.speed then s.1.speed else speedBetween e s.1 s.2 time

namespace SpeedMap

/-- A segment holds the times from its left point to its right one. -/
def holds (time : α) (s : SpeedPoint α × SpeedPoint α) : Bool :=
  s.1.time ≤ time && time ≤ s.2.time

theorem holds_iff {time : α} {s : SpeedPoint α × SpeedPoint α} :
    holds time s = true ↔ s.1.time ≤ time ∧ time ≤ s.2.time := by
  unfold holds
  rw [Bool.and_eq_true, decide_eq_true_iff, decide_eq_true_iff]

variable {m : SpeedMap α} {how : Sampling α} {time : α} {s : SpeedPoint α × SpeedPoint α}

/-- The lookup of a sample. -/
theorem find?_segment (m : SpeedMap α) (time : α) :
    (m.segments.find? fun (left, right) => left.time ≤ time && time ≤ right.time) =
      m.segments.find? (holds time) := rfl

theorem sample_of_none (hplain : m.isPlain = false) (h : m.segments.find? (holds time) = none) :
    m.sample how time = 1.0 := by
  unfold sample
  rw [if_neg (Bool.eq_false_iff.mp hplain), find?_segment, h]

theorem sample_of_some (hplain : m.isPlain = false) (hround : ¬ 0.0 < how.multiple)
    (h : m.segments.find? (holds time) = some s) :
    m.sample how time = speedIn how.easing s time := by
  unfold sample speedIn
  rw [if_neg (Bool.eq_false_iff.mp hplain), find?_segment, h]
  dsimp only
  rw [if_neg hround]

variable [OrderedScalar α]

/-- All points of a sound map are from its start on and not after its end. -/
theorem Sound.mem_span (hm : m.Sound) {p : SpeedPoint α} (hp : p ∈ m.points) :
    m.start ≤ p.time ∧ p.time ≤ m.stop := by
  rcases hm.parts with ⟨hstart, hspan, -, hstop⟩
  have hself : ∀ {x : α}, Scalar.isFinite x = true → x ≤ x := fun h =>
    (OrderedScalar.total h h).elim id id
  have hall : ∀ p ∈ m.points, m.start ≤ p.time ∧ p.time ≤ m.stop :=
    forall_mem_points.mpr ⟨⟨hself hm.finite_start, hspan⟩, fun p hp => ⟨hstart p hp, hstop p hp⟩,
      hspan, hself hm.finite_stop⟩
  exact hall p hp

/-- No segment holds a time outside a map. -/
theorem Sound.find?_holds_eq_none (hm : m.Sound) (h : ¬ (m.start ≤ time ∧ time ≤ m.stop)) :
    m.segments.find? (holds time) = none := by
  rw [List.find?_eq_none]
  rintro ⟨left, right⟩ hs hholds
  rcases holds_iff.mp hholds with ⟨hlt, htr⟩
  rcases mem_points_of_mem_segments hs with ⟨hleft, hright⟩
  exact h ⟨OrderedScalar.trans (hm.mem_span hleft).1 hlt,
    OrderedScalar.trans htr (hm.mem_span hright).2⟩

/-- The first segment of a row that holds a time ends at the first point that is
    not before it. All points in front of that one are before the time, so the left
    point need not be looked at. -/
theorem find?_holds_snd {first : SpeedPoint α} {ps : List (SpeedPoint α)}
    (hps : ∀ p ∈ ps, Scalar.isFinite p.time = true) (htime : Scalar.isFinite time = true)
    (hfirst : first.time ≤ time) :
    (((first :: ps).zip ps).find? (holds time)).map Prod.snd =
      ps.find? fun p => time ≤ p.time := by
  induction ps generalizing first with
  | nil => rfl
  | cons p ps ih =>
      rcases List.forall_mem_cons.mp hps with ⟨hp, hps⟩
      have hholds : holds time (first, p) = decide (time ≤ p.time) := by
        unfold holds
        rw [decide_eq_true hfirst, Bool.true_and]
      rw [List.zip_cons_cons, List.find?_cons, List.find?_cons, hholds]
      -- A point in front of the time is passed over, and
      -- begins the next segment before the time.
      by_cases hle : time ≤ p.time
      · rw [decide_eq_true hle]
        rfl
      · rw [decide_eq_false hle]
        exact ih hps (OrderedScalar.le_of_not_le hp htime hle)

/-- A segment that holds a time and does not begin at it is the first that does,
    if the points are in order. -/
theorem find?_holds_eq_some {first : SpeedPoint α} {ps : List (SpeedPoint α)}
    (hsorted : (first :: ps).Pairwise fun p q => p.time ≤ q.time)
    (hs : s ∈ (first :: ps).zip ps) (hafter : ¬ time ≤ s.1.time) (hholds : holds time s = true) :
    ((first :: ps).zip ps).find? (holds time) = some s := by
  induction ps generalizing first with
  | nil => cases hs
  | cons p ps ih =>
      rw [List.zip_cons_cons] at hs ⊢
      rcases List.mem_cons.mp hs with rfl | hs
      · exact List.find?_cons_of_pos hholds
      · have hsorted := (List.pairwise_cons.mp hsorted).2
        -- The left point is not in front of the end of an earlier segment.
        have hbefore : ¬ time ≤ p.time := by
          intro hle
          rcases List.mem_cons.mp (List.of_mem_zip hs).1 with heq | hmem
          · exact hafter (heq ▸ hle)
          · exact hafter (OrderedScalar.trans hle ((List.pairwise_cons.mp hsorted).1 _ hmem))
        rw [List.find?_cons_of_neg fun h => hbefore (holds_iff.mp h).2]
        exact ih hsorted hs

end SpeedMap

end Lookup

/-! ### At the points -/

section Points

open Double

/-- What compares as equal to a finite double is finite and has its value. -/
theorem Double.real_eq_of_beq {x y : Float} (hx : x.isFinite = true) (h : (x == y) = true) :
    y.isFinite = true ∧ real x = real y := by
  have hy : y.isFinite = true := by
    rw [beq_iff, Float.Model.UnpackedFloat.beq_iff_ne_notANumber_and_eq] at h
    rcases h.2.2 with heq | ⟨-, hzero⟩ | ⟨-, hzero⟩
    · change y.toModel.unpack.isFinite = true
      rw [← heq]
      exact hx
    · exact congrArg Float.Model.UnpackedFloat.isFinite hzero
    · exact congrArg Float.Model.UnpackedFloat.isFinite hzero
  exact ⟨hy, (beq_iff_real hx hy).mp h⟩

/-- In a row that is in order, the first point at a time is the first that is not
    before it. -/
theorem SpeedMap.find?_le_of_find?_beq {ps : List (SpeedPoint Float)} {time : Float}
    {q : SpeedPoint Float} (hps : ∀ p ∈ ps, p.time.isFinite = true)
    (hsorted : ps.Pairwise fun p q => p.time ≤ q.time)
    (h : ps.find? (fun p => p.time == time) = some q) :
    ps.find? (fun p => time ≤ p.time) = some q := by
  have hq := hps q (List.mem_of_find?_eq_some h)
  have hequal := List.find?_some h
  rcases Double.real_eq_of_beq hq hequal with ⟨htime, hreal⟩
  clear hequal
  induction ps with
  | nil => cases h
  | cons p ps ih =>
      rcases List.forall_mem_cons.mp hps with ⟨hp, hps⟩
      rcases List.pairwise_cons.mp hsorted with ⟨hfirst, hsorted⟩
      rw [List.find?_cons] at h ⊢
      have hequal := beq_iff_real hp htime
      have hle := le_iff_real htime hp
      cases hsame : p.time == time with
      | true =>
          rw [hsame] at h
          rw [decide_eq_true (hle.mpr (hequal.mp hsame).ge)]
          exact h
      | false =>
          rw [hsame] at h
          -- The point is not behind the one that is found, nor is it at the time.
          have hbefore : ¬ time ≤ p.time := by
            intro hafter
            have hpq := (le_iff_real hp hq).mp (hfirst q (List.mem_of_find?_eq_some h))
            rw [hreal] at hpq
            rw [hequal.mpr (le_antisymm hpq (hle.mp hafter))] at hsame
            cases hsame
          rw [decide_eq_false hbefore]
          exact ih hps hsorted h

variable {l t r : Float}

/-- The progress is one at the end of a segment, if it is a number. -/
theorem within_progress_stop (hl : l.isFinite = true) (ht : t.isFinite = true)
    (hr : r.isFinite = true) (hreal : real t = real r)
    (h : ((t - l) / (r - l)).isFinite = true) : Within ((t - l) / (r - l)) 1 1 := by
  rcases real_sub_congr ht hr hl hreal with ⟨hfinite, hsame⟩
  rcases isFinite_of_div h with ⟨hpast, ⟨hspan, -⟩ | ⟨hspan, hne⟩⟩
  · rw [hfinite, hspan] at hpast
    cases hpast
  · exact (Within.of_real_eq hpast hsame).div_exact (.self hspan) hne (div_self hne)
      within_one.fits

/-- It is zero at the start of one, if the end is later. -/
theorem within_progress_start (hl : l.isFinite = true) (ht : t.isFinite = true)
    (hr : r.isFinite = true) (hreal : real t = real l) (hlr : real l < real r) :
    Within ((t - l) / (r - l)) 0 0 := by
  rcases real_sub_congr ht hl hl hreal with ⟨hfinite, hsame⟩
  have hnone : l - l = 0.0 := sub_self_eq_zero hl
  rw [hnone] at hfinite hsame
  have hpast : Within (t - l) 0 0 :=
    .of_real_eq (hfinite.trans within_zero.isFinite) (hsame.trans within_zero.real_eq)
  exact within_zero_div hpast (not_isNaN_sub hr hl) fun hspan => (real_sub_pos hr hl hspan hlr).ne'

/-- Both easings keep zero. -/
theorem Easing.within_apply_zero (e : Easing) (ht : Within t 0 0) : Within (e.apply t) 0 0 := by
  have hzero := within_zero.fits
  cases e with
  | linear => exact ht
  | cubicInOut =>
      have hhalf : t < 0.5 := by
        rw [lt_iff_real ht.isFinite within_half.isFinite, within_half.real_eq, ht.real_eq]
        norm_num
      rw [apply_halves, if_pos hhalf]
      have hfour := within_four.mul_exact ht (mul_zero 4) hzero
      exact (hfour.mul_exact ht (mul_zero 0) hzero).mul_exact ht (mul_zero 0) hzero

/-- Both easings keep one. -/
theorem Easing.within_apply_one (e : Easing) (ht : Within t 1 1) : Within (e.apply t) 1 1 := by
  have hzero := within_zero.fits
  cases e with
  | linear => exact ht
  | cubicInOut =>
      -- One lies in the second half, where every step of the easing is exact.
      have hhalf : ¬ t < 0.5 := by
        rw [lt_iff_real ht.isFinite within_half.isFinite, within_half.real_eq, ht.real_eq]
        norm_num
      rw [apply_halves, if_neg hhalf]
      have htwice := within_two.mul_exact ht (mul_one 2) within_two.fits
      have hback := htwice.sub_exact within_two (sub_self 2) hzero
      have hcube := (hback.mul_exact hback (mul_zero 0) hzero).mul_exact hback (mul_zero 0) hzero
      exact (hcube.div_exact within_two two_ne_zero (zero_div 2) hzero).add_exact within_one
        (zero_add 1) within_one.fits

/-- With all of the weight on one of two speeds, their mean is that speed. -/
theorem within_weighted_one (hl : l.isFinite = true) (hr : r.isFinite = true)
    (ht : Within t 1 1) : Within (weighted l r t) (real r) (real r) := by
  have hrest := within_one.sub_exact ht (sub_self 1) within_zero.fits
  have hfirst := (Within.self hl).mul_exact hrest (mul_zero _) within_zero.fits
  have hsecond := (Within.self hr).mul_exact ht (mul_one _) (fits_real hr)
  exact hfirst.add_exact hsecond (zero_add _) (fits_real hr)

theorem within_weighted_zero (hl : l.isFinite = true) (hr : r.isFinite = true)
    (ht : Within t 0 0) : Within (weighted l r t) (real l) (real l) := by
  have hrest := within_one.sub_exact ht (sub_zero 1) within_one.fits
  have hfirst := (Within.self hl).mul_exact hrest (mul_one _) (fits_real hl)
  have hsecond := (Within.self hr).mul_exact ht (mul_zero _) within_zero.fits
  exact hfirst.add_exact hsecond (add_zero _) (fits_real hl)

/-- There is one double of a positive value. -/
theorem eq_of_real_eq_positive {x y : Float} (hx : Scalar.isPositive x = true)
    (hy : y.isFinite = true) (h : real y = real x) : y = x := by
  rcases Bool.and_eq_true_iff.mp hx with ⟨hfinite, hpos⟩
  exact (Double.eq_of_beq (of_decide_eq_true hpos) ((beq_iff_real hfinite hy).mpr h.symm)).symm

variable {left right : SpeedPoint Float} {time : Float}

/-- A mean that is a number and not zero is the speed between two points. -/
theorem speedBetween_eq_weighted {e : Easing}
    (h : (weighted left.speed right.speed (weightAt e left right time)).isFinite = true)
    (hne : real (weighted left.speed right.speed (weightAt e left right time)) ≠ 0) :
    speedBetween e left right time =
      weighted left.speed right.speed (weightAt e left right time) := by
  have hsome : (weighted left.speed right.speed (weightAt e left right time) == 0.0) = false := by
    rw [Bool.eq_false_iff]
    intro hzero
    -- The zero of the test may be of either sign, so it is the values that are compared.
    rw [beq_iff_real h within_zero.isFinite, within_zero.real_eq] at hzero
    exact hne hzero
  rw [speedBetween_eq]
  dsimp only
  rw [h, hsome]
  rfl

/-- The speed at the end of a segment is that of its right point. -/
theorem speedIn_stop (e : Easing) (hleft : Scalar.isPositive left.speed = true)
    (hright : Scalar.isPositive right.speed = true) (hl : left.time.isFinite = true)
    (hr : right.time.isFinite = true) (h : (right.time == time) = true) :
    speedIn e (left, right) time = right.speed := by
  rcases Double.real_eq_of_beq hr h with ⟨htime, hreal⟩
  have hspeed := (Bool.and_eq_true_iff.mp hleft).1
  have hspeed' := (Bool.and_eq_true_iff.mp hright).1
  unfold speedIn
  by_cases hlevel : (left.speed == right.speed) = true
  · rw [if_pos hlevel]
    exact eq_of_real_eq_positive hright hspeed ((beq_iff_real hspeed hspeed').mp hlevel)
  · rw [if_neg hlevel]
    rcases speedBetween_cases e left right time with hfallback | ⟨hmean, hfinite, -⟩
    · exact hfallback
    -- The mean is a number, so the progress is one, and so is its weight.
    · have hweight := (isFinite_of_mul (isFinite_of_add hfinite).2).2
      have hprogress := within_progress_stop hl htime hr hreal.symm (e.isFinite_of_apply hweight)
      rw [hmean]
      exact eq_of_real_eq_positive hright hfinite
        (within_weighted_one hspeed hspeed' (e.within_apply_one hprogress)).real_eq

/-- The speed at the start of a segment of some length is that of its left point. -/
theorem speedIn_start (e : Easing) (hleft : Scalar.isPositive left.speed = true)
    (hright : Scalar.isPositive right.speed = true) (hl : left.time.isFinite = true)
    (hr : right.time.isFinite = true) (hlr : left.time < right.time)
    (h : (left.time == time) = true) : speedIn e (left, right) time = left.speed := by
  rcases Double.real_eq_of_beq hl h with ⟨htime, hreal⟩
  have hspeed := (isPositive_iff_real _).mp hleft
  have hspeed' := (Bool.and_eq_true_iff.mp hright).1
  unfold speedIn
  by_cases hlevel : (left.speed == right.speed) = true
  · rw [if_pos hlevel]
  · rw [if_neg hlevel]
    have hprogress := within_progress_start hl htime hr hreal.symm ((lt_iff_real hl hr).mp hlr)
    have hmean := within_weighted_zero hspeed.1 hspeed' (e.within_apply_zero hprogress)
    -- A speed is positive, so the mean is not taken for a failure.
    have hne : real (weighted left.speed right.speed (weightAt e left right time)) ≠ 0 := by
      rw [weightAt, hmean.real_eq]
      exact hspeed.2.ne'
    rw [speedBetween_eq_weighted hmean.isFinite hne]
    exact eq_of_real_eq_positive hleft hmean.isFinite hmean.real_eq

namespace SpeedMap

variable {m : SpeedMap Float} {how : Sampling Float} {q : SpeedPoint Float}

/-- At the time of a point behind the start, the speed is that of the first such
    point at that time. -/
theorem Sound.sample_point (hm : m.Sound) (hplain : m.isPlain = false)
    (hround : ¬ 0.0 < how.multiple)
    (h : m.points.tail.find? (fun p => p.time == time) = some q) :
    m.sample how time = q.speed := by
  have hfinite : ∀ p ∈ m.points.tail, p.time.isFinite = true := fun p hp =>
    hm.finite p (List.mem_of_mem_tail hp)
  have hsorted : m.points.tail.Pairwise fun p q => p.time ≤ q.time :=
    (List.pairwise_cons.mp hm.sorted).2
  have hq := List.mem_of_find?_eq_some h
  have hequal := List.find?_some h
  rcases Double.real_eq_of_beq (hfinite q hq) hequal with ⟨htime, hreal⟩
  have hstart : m.start ≤ time :=
    OrderedScalar.trans (hm.mem_span (List.mem_of_mem_tail hq)).1
      ((le_iff_real (hfinite q hq) htime).mpr hreal.le)
  -- The segment ends at the first point that is not before the time, which is this one.
  have hsnd := find?_holds_snd hfinite htime hstart
  rw [find?_le_of_find?_beq hfinite hsorted h] at hsnd
  rcases Option.map_eq_some_iff.mp hsnd with ⟨⟨left, right⟩, hfind, rfl⟩
  have hsegments : m.segments.find? (holds time) = some (left, right) := hfind
  rcases mem_points_of_mem_segments (List.mem_of_find?_eq_some hsegments) with ⟨hleft, hright⟩
  rw [sample_of_some hplain hround hsegments]
  exact speedIn_stop how.easing (hm.speed left hleft) (hm.speed right hright)
    (hm.finite left hleft) (hm.finite right hright) hequal

/-- At the start the speed is that of the start, if the second point is later. -/
theorem Sound.sample_start (hm : m.Sound) (hplain : m.isPlain = false)
    (hround : ¬ 0.0 < how.multiple) (hq : m.points[1]? = some q) (hlater : m.start < q.time)
    (h : (m.start == time) = true) : m.sample how time = m.first.speed := by
  rcases Double.real_eq_of_beq hm.finite_start h with ⟨htime, hreal⟩
  have hmem := List.mem_of_getElem? hq
  have hfinite := hm.finite q hmem
  -- The first segment has some length and holds its own start, so no other is looked at.
  have hholds : holds time (m.first, q) = true := by
    have hless := (lt_iff_real hm.finite_start hfinite).mp hlater
    exact holds_iff.mpr ⟨(le_iff_real hm.finite_start htime).mpr hreal.le,
      (le_iff_real htime hfinite).mpr (hreal.ge.trans hless.le)⟩
  have hfind : m.segments.find? (holds time) = some (m.first, q) := by
    have hsegments : m.segments = (m.first :: m.points.tail).zip m.points.tail := rfl
    have hsecond : m.points.tail.head? = some q := by
      rw [List.head?_eq_getElem?]
      exact hq
    rcases List.head?_eq_some_iff.mp hsecond with ⟨ps, hps⟩
    rw [hsegments, hps]
    exact List.find?_cons_of_pos hholds
  rw [sample_of_some hplain hround hfind]
  exact speedIn_start how.easing (hm.speed m.first List.mem_cons_self) (hm.speed q hmem)
    hm.finite_start hfinite hlater h

end SpeedMap

end Points

/-! ### Between the points -/

section Curve

open Exact Set Filter Topology

namespace Easing

/-- The curve that starts and ends gently, with both of its halves as cubes. -/
theorem apply_cubicInOut (t : ℝ) :
    Easing.cubicInOut.apply t = if t ≤ 1 / 2 then 4 * t ^ 3 else 1 - 4 * (1 - t) ^ 3 := by
  have hhalf : (0.5 : ℝ) = 1 / 2 := by norm_num
  have hfour : (4.0 : ℝ) = 4 := by norm_num
  have htwo : (2.0 : ℝ) = 2 := by norm_num
  rw [apply_halves, hhalf, hfour, htwo, decimal_one]
  -- The halves meet where they part.
  rcases lt_trichotomy t (1 / 2) with h | rfl | h
  · rw [if_pos h, if_pos h.le]
    ring
  · rw [if_neg (lt_irrefl _), if_pos le_rfl]
    norm_num
  · rw [if_neg h.not_gt, if_neg h.not_ge]
    ring

theorem apply_zero (e : Easing) : e.apply (0 : ℝ) = 0 := by
  cases e with
  | linear => rfl
  | cubicInOut =>
      rw [apply_cubicInOut, if_pos (by norm_num)]
      norm_num

theorem apply_one (e : Easing) : e.apply (1 : ℝ) = 1 := by
  cases e with
  | linear => rfl
  | cubicInOut =>
      rw [apply_cubicInOut, if_neg (by norm_num)]
      norm_num

/-- Neither easing goes down. -/
theorem monotone_apply (e : Easing) : Monotone (e.apply : ℝ → ℝ) := by
  cases e with
  | linear => exact monotone_id
  | cubicInOut =>
      intro s t hst
      have hcube : ∀ {x y : ℝ}, x ≤ y → x ^ 3 ≤ y ^ 3 := fun h =>
        (Odd.strictMono_pow (by decide)).monotone h
      rw [apply_cubicInOut, apply_cubicInOut]
      by_cases ht : t ≤ 1 / 2
      · rw [if_pos ht, if_pos (hst.trans ht)]
        linarith [hcube hst]
      · rw [if_neg ht]
        by_cases hs : s ≤ 1 / 2
        · -- One time in each half: the first stays below a half, the second above.
          have hlow := hcube hs
          have hhigh := hcube (show 1 - t ≤ 1 / 2 by linarith)
          rw [if_pos hs]
          linarith
        · rw [if_neg hs]
          linarith [hcube (show 1 - t ≤ 1 - s by linarith)]

/-- Neither easing jumps. -/
theorem continuous_apply (e : Easing) : Continuous (e.apply : ℝ → ℝ) := by
  cases e with
  | linear => exact continuous_id
  | cubicInOut =>
      have hcurve : (Easing.cubicInOut.apply : ℝ → ℝ) = fun t =>
          if t ≤ 1 / 2 then 4 * t ^ 3 else 1 - 4 * (1 - t) ^ 3 := funext apply_cubicInOut
      rw [hcurve]
      refine Continuous.if_le (by fun_prop) (by fun_prop) continuous_id continuous_const ?_
      intro t ht
      rw [ht]
      norm_num

end Easing

variable {left right : SpeedPoint ℝ} {time : ℝ}

/-- The way from the speed of one point to that of another. -/
noncomputable def path (e : Easing) (left right : SpeedPoint ℝ) (time : ℝ) : ℝ :=
  left.speed + (right.speed - left.speed) *
    e.apply ((time - left.time) / (right.time - left.time))

theorem path_start (e : Easing) (left right : SpeedPoint ℝ) :
    path e left right left.time = left.speed := by
  unfold path
  rw [sub_self, zero_div, e.apply_zero, mul_zero, add_zero]

theorem path_stop (e : Easing) (h : left.time < right.time) :
    path e left right right.time = right.speed := by
  unfold path
  rw [div_self (sub_pos.mpr h).ne', e.apply_one, mul_one, add_sub_cancel]

theorem continuous_path (e : Easing) (left right : SpeedPoint ℝ) :
    Continuous (path e left right) := by
  unfold path
  have heased : Continuous fun time : ℝ =>
      e.apply ((time - left.time) / (right.time - left.time)) :=
    e.continuous_apply.comp (by fun_prop)
  fun_prop

/-- The eased progress grows with the time. -/
theorem monotone_eased (e : Easing) (h : left.time < right.time) :
    Monotone fun time : ℝ => e.apply ((time - left.time) / (right.time - left.time)) :=
  fun _ _ hst => e.monotone_apply
    (div_le_div_of_nonneg_right (sub_le_sub_right hst _) (sub_pos.mpr h).le)

theorem monotone_path (e : Easing) (h : left.time < right.time) (hle : left.speed ≤ right.speed) :
    Monotone (path e left right) := fun _ _ hst =>
  add_le_add_right (mul_le_mul_of_nonneg_left (monotone_eased e h hst) (sub_nonneg.mpr hle)) _

theorem antitone_path (e : Easing) (h : left.time < right.time) (hle : right.speed ≤ left.speed) :
    Antitone (path e left right) := fun _ _ hst =>
  add_le_add_right (mul_le_mul_of_nonpos_left (monotone_eased e h hst) (sub_nonpos.mpr hle)) _

/-- Within a segment of some length, the speed follows the way between its points. -/
theorem speedIn_eq_path (e : Easing) (hleft : 0 < left.speed) (hright : 0 < right.speed)
    (hlr : left.time < right.time) (hlt : left.time ≤ time) (htr : time ≤ right.time) :
    speedIn e (left, right) time = path e left right time := by
  have hspan : 0 < right.time - left.time := sub_pos.mpr hlr
  have hlow : 0 ≤ (time - left.time) / (right.time - left.time) :=
    div_nonneg (sub_nonneg.mpr hlt) hspan.le
  have hhigh : (time - left.time) / (right.time - left.time) ≤ 1 :=
    (div_le_one hspan).mpr (sub_le_sub_right htr _)
  have hweight : 0 ≤ e.apply ((time - left.time) / (right.time - left.time)) ∧
      e.apply ((time - left.time) / (right.time - left.time)) ≤ 1 := by
    constructor
    · rw [← e.apply_zero]
      exact e.monotone_apply hlow
    · rw [← e.apply_one]
      exact e.monotone_apply hhigh
  unfold speedIn path
  by_cases hlevel : left.speed = right.speed
  · rw [if_pos ((beq_iff _ _).mpr hlevel), ← hlevel, sub_self, zero_mul, add_zero]
  · rw [if_neg (mt (beq_iff _ _).mp hlevel)]
    unfold speedBetween
    dsimp only
    generalize e.apply ((time - left.time) / (right.time - left.time)) = w at hweight ⊢
    rw [decimal_zero, decimal_one]
    -- The mean of two positive speeds is not zero, so nothing stands in for it.
    have hmean : 0 < left.speed * (1 - w) + right.speed * w := by
      rcases hweight.1.eq_or_lt with rfl | hpos
      · linarith
      · exact add_pos_of_nonneg_of_pos (mul_nonneg hleft.le (sub_nonneg.mpr hweight.2))
          (mul_pos hright hpos)
    have hsome : (left.speed * (1 - w) + right.speed * w == 0) = false :=
      Bool.eq_false_iff.mpr fun h => hmean.ne' ((beq_iff _ _).mp h)
    rw [hsome]
    change left.speed * (1 - w) + right.speed * w = _
    ring

/-- A speed moves from one point to another: it stays between their speeds, only
    goes up or only goes down, and comes from the one and goes to the other
    without a jump. -/
structure Glides (speed : ℝ → ℝ) (left right : SpeedPoint ℝ) : Prop where
  between : ∀ t ∈ Ioo left.time right.time, speed t ∈ uIcc left.speed right.speed
  rising : left.speed ≤ right.speed → MonotoneOn speed (Ioo left.time right.time)
  falling : right.speed ≤ left.speed → AntitoneOn speed (Ioo left.time right.time)
  continuous : ContinuousOn speed (Ioo left.time right.time)
  leaves : Tendsto speed (𝓝[>] left.time) (𝓝 left.speed)
  arrives : Tendsto speed (𝓝[<] right.time) (𝓝 right.speed)

/-- What follows the way between two points moves from the one to the other. -/
theorem glides_of_path (e : Easing) {speed : ℝ → ℝ} (h : left.time < right.time)
    (hpath : ∀ t ∈ Ioo left.time right.time, speed t = path e left right t) :
    Glides speed left right where
  between t ht := by
    rw [hpath t ht, ← path_start e left right, ← path_stop e h]
    -- The speed rises or falls all along, and so stays between those of its ends.
    rcases le_total left.speed right.speed with hle | hle
    · exact Icc_subset_uIcc ⟨monotone_path e h hle ht.1.le, monotone_path e h hle ht.2.le⟩
    · exact Icc_subset_uIcc' ⟨antitone_path e h hle ht.2.le, antitone_path e h hle ht.1.le⟩
  rising hle := ((monotone_path e h hle).monotoneOn _).congr fun t ht => (hpath t ht).symm
  falling hle := ((antitone_path e h hle).antitoneOn _).congr fun t ht => (hpath t ht).symm
  continuous := (continuous_path e left right).continuousOn.congr hpath
  leaves := by
    have hend : Tendsto (path e left right) (𝓝[>] left.time) (𝓝 (path e left right left.time)) :=
      (continuous_path e left right).continuousWithinAt
    rw [path_start] at hend
    exact hend.congr' (mem_of_superset (Ioo_mem_nhdsGT h) fun t ht => (hpath t ht).symm)
  arrives := by
    have hend : Tendsto (path e left right) (𝓝[<] right.time) (𝓝 (path e left right right.time)) :=
      (continuous_path e left right).continuousWithinAt
    rw [path_stop e h] at hend
    exact hend.congr' (mem_of_superset (Ioo_mem_nhdsLT h) fun t ht => (hpath t ht).symm)

namespace SpeedMap

variable {m : SpeedMap ℝ} {how : Sampling ℝ}

/-- Between two points of a sound map the speed moves from the one to the other. -/
theorem Sound.glides (hm : m.Sound) (hplain : m.isPlain = false) (hround : ¬ 0.0 < how.multiple)
    (hs : (left, right) ∈ m.segments) (h : left.time < right.time) :
    Glides (m.sample how) left right := by
  rcases mem_points_of_mem_segments hs with ⟨hleft, hright⟩
  refine glides_of_path how.easing h fun t ht => ?_
  have hfind : m.segments.find? (holds t) = some (left, right) :=
    find?_holds_eq_some hm.sorted hs (not_le.mpr ht.1) (holds_iff.mpr ⟨ht.1.le, ht.2.le⟩)
  rw [sample_of_some hplain hround hfind]
  exact speedIn_eq_path how.easing ((isPositive_iff _).mp (hm.speed left hleft))
    ((isPositive_iff _).mp (hm.speed right hright)) h ht.1.le ht.2.le

end SpeedMap

end Curve

/-- A sound map that is more than two points of one speed is sampled between its
    points, with both easings and without a rounding. In doubles, the speed outside
    is one. At the time of a point behind the start it is the speed of the first such
    point at that time, and at the start it is that of the start if the second point
    is later. In exact arithmetic it moves from each point to the next. -/
theorem sample_interpolates (easing : Easing) (precision : UInt32) :
    (∀ (m : SpeedMap Float) (multiple : Float), m.flaw? = none → m.isPlain = false →
      ¬ (0.0 : Float) < multiple →
      let how : Sampling Float := ⟨easing, multiple, precision⟩
      ∀ time : Float,
        (¬ (m.start ≤ time ∧ time ≤ m.stop) → m.sample how time = 1.0) ∧
        (∀ p ∈ m.points.tail, (p.time == time) = true →
          ∃ q, m.points.tail.find? (fun p => p.time == time) = some q ∧
            m.sample how time = q.speed) ∧
        ∀ second, m.points[1]? = some second → m.start < second.time →
          (m.start == time) = true → m.sample how time = m.first.speed) ∧
    ∀ (m : SpeedMap ℝ) (multiple : ℝ), m.flaw? = none → m.isPlain = false →
      ¬ (0.0 : ℝ) < multiple →
      let how : Sampling ℝ := ⟨easing, multiple, precision⟩
      (∀ time : ℝ, ¬ (m.start ≤ time ∧ time ≤ m.stop) → m.sample how time = 1.0) ∧
      ∀ left right, (left, right) ∈ m.segments → left.time < right.time →
        Glides (m.sample how) left right := by
  constructor
  · intro m multiple hflaw hplain hround how time
    have hm := (SpeedMap.flaw?_eq_none_iff m).mp hflaw
    refine ⟨fun hout => SpeedMap.sample_of_none hplain (hm.find?_holds_eq_none hout), ?_, ?_⟩
    · intro p hp hequal
      -- Some point behind the start is at this time, and it is the first of those that counts.
      have hsome : (m.points.tail.find? fun p => p.time == time).isSome = true :=
        List.find?_isSome.mpr ⟨p, hp, hequal⟩
      rcases Option.isSome_iff_exists.mp hsome with ⟨q, hq⟩
      exact ⟨q, hq, hm.sample_point hplain hround hq⟩
    · intro second hsecond hlater hequal
      exact hm.sample_start hplain hround hsecond hlater hequal
  · intro m multiple hflaw hplain hround how
    have hm := (SpeedMap.flaw?_eq_none_iff m).mp hflaw
    refine ⟨fun time hout => SpeedMap.sample_of_none hplain (hm.find?_holds_eq_none hout), ?_⟩
    intro left right hs h
    exact hm.glides hplain hround hs h

/-- A map whose speed jumps half way. -/
def jumping : SpeedMap Float :=
  ⟨⟨0.0, 1.0⟩, [⟨1.0, 2.0⟩, ⟨1.0, 3.0⟩], ⟨2.0, 1.0⟩⟩

/-- Where it jumps the speed is the one before the jump. -/
theorem sample_interpolates_jumping :
    (jumping.sample ⟨.cubicInOut, 0.0, 2⟩ 5.0 = 1.0 ∧
      jumping.sample ⟨.cubicInOut, 0.0, 2⟩ 1.0 = 2.0 ∧
      jumping.sample ⟨.cubicInOut, 0.0, 2⟩ 0.0 = 1.0) ∧
    Glides ((bent 1 2).sample ⟨.cubicInOut, 0, 2⟩) ⟨101 / 100, 1⟩ ⟨102 / 100, 2⟩ := by
  rcases sample_interpolates .cubicInOut 2 with ⟨hdouble, hexact⟩
  constructor
  · have hsample := hdouble jumping 0.0 (by decide) (by decide) (by decide)
    -- Two points are at this time, of which the first has the speed two.
    have hfirst : (jumping.points.tail.find? fun p => p.time == 1.0) = some ⟨1.0, 2.0⟩ := by rfl
    rcases (hsample 1.0).2.1 ⟨1.0, 2.0⟩ List.mem_cons_self (by decide) with ⟨q, hq, hspeed⟩
    rw [hfirst] at hq
    cases hq
    exact ⟨(hsample 5.0).1 (by decide), hspeed,
      (hsample 0.0).2.2 ⟨1.0, 2.0⟩ rfl (by decide) (by decide)⟩
  · have hround : ¬ (0.0 : ℝ) < 0 := by norm_num
    have hflaw : (bent 1 2).flaw? = none := bent_flaw?_eq_none (by norm_num) (by norm_num)
    exact (hexact (bent 1 2) 0 hflaw rfl hround).2 ⟨101 / 100, 1⟩ ⟨102 / 100, 2⟩
      (List.mem_cons_of_mem _ List.mem_cons_self) (by norm_num)

end Retime
