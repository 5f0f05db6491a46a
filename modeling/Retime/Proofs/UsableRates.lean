import Retime.Proofs.DoubleWhole
import Retime.Proofs.PreviewRate
import Retime.Preview.Tick

/-!
# Rates a Player Can Use

When the rate that a preview plays at is positive and finite.

The speed between two points always is. The progress through a segment lies
between zero and one, also in doubles, because rounding does not pass either.
Both easings keep it there. So the mean of two positive speeds is not negative,
and where it vanishes or overflows the speed of the right point is taken for it.

What comes of that is rounded, and the rounding is not looked at again. It goes
to a multiple and then to few decimals, and either may take a small speed to
zero. A multiple that is very small lets it overflow. What decides is the speed
after the first of the two steps, in units of the last decimal: with a half or
more of them the speed survives the second. A multiple that is more than half
such a unit and that no speed of the map is below is safe at all times.

## Main definitions

* `weighted`: The mean of two speeds.
* `SpeedMap.bend?`: The segment at a time, if the speed changes in it.
* `Sampling.units`: A rounded speed in units of the last decimal.
* `Sampling.Keeps`: The rounding leaves a speed that can be used.
* `Sampling.Suits`: The rounding does so at all times.

## Theorems

* `Easing.within_apply`: Both easings keep zero to one.
* `isPositive_speedBetween`: The speed between two points can be used.
* `isPositive_roundSpeed_iff`: When a rounded speed can be.
* `preview_rates_usable`: When the rates of a preview can be.
* `preview_rate_vanishes`: They cannot always.
-/

namespace Retime

open Double

/-! ### Between two points -/

section Between

variable {x l t r : Float}

theorem zero_lt_iff_real (hx : x.isFinite = true) : (0.0 : Float) < x ↔ 0 < real x := by
  rw [lt_iff_real within_zero.isFinite hx, within_zero.real_eq]

theorem half_le_iff_real (hx : x.isFinite = true) : (0.5 : Float) ≤ x ↔ 1 / 2 ≤ real x := by
  rw [le_iff_real within_half.isFinite hx, within_half.real_eq]

theorem isPositive_iff_real (x : Float) :
    Scalar.isPositive x = true ↔ x.isFinite = true ∧ 0 < real x := by
  unfold Scalar.isPositive
  rw [Bool.and_eq_true, decide_eq_true_iff]
  exact and_congr_right zero_lt_iff_real

/-- The progress through a segment that holds a time lies between zero and one,
    unless it is no number. A segment that is too long to be measured has none. -/
theorem within_progress (hlt : l ≤ t) (htr : t ≤ r) (h : ((t - l) / (r - l)).isFinite = true) :
    Within ((t - l) / (r - l)) 0 1 := by
  -- A finite quotient has a finite divisor, or an infinite one that takes it to zero.
  rcases isFinite_of_div h with ⟨hpast, ⟨-, hzero⟩ | ⟨hspan, hne⟩⟩
  · exact ⟨h, hzero.ge, hzero.trans_le zero_le_one⟩
  · rcases isFinite_of_sub hpast with ⟨ht, hl⟩
    rcases isFinite_of_sub hspan with ⟨hr, -⟩
    rw [le_iff_real hl ht] at hlt
    rw [le_iff_real ht hr] at htr
    -- Rounding keeps the order, so the time past the left point is no longer than the span.
    have hnonneg : 0 ≤ real (t - l) :=
      ((rounds_sub ht hl).nearest hpast).le_of_le onGrid_zero (sub_nonneg.mpr hlt)
    have hle : real (t - l) ≤ real (r - l) := real_sub_mono ht hr hl hpast hspan htr
    have hpos : 0 < real (r - l) := (hnonneg.trans hle).lt_of_ne hne.symm
    have hzero := within_zero.fits
    have hone := within_one.fits
    exact (rounds_div hpast hspan hne).between hzero hone (div_nonneg hnonneg hpos.le)
      ((div_le_one hpos).mpr hle)

end Between

namespace Easing

/-- The curve that starts and ends gently has two halves. -/
theorem apply_halves {α : Type} [Scalar α] (t : α) :
    Easing.cubicInOut.apply t =
      if t < 0.5 then 4.0 * t * t * t
      else (2.0 * t - 2.0) * (2.0 * t - 2.0) * (2.0 * t - 2.0) / 2.0 + 1.0 := rfl

variable {t : Float}

/-- Both easings keep zero to one. -/
theorem within_apply (e : Easing) (ht : Within t 0 1) : Within (e.apply t) 0 1 := by
  have hzero := within_zero.fits
  have hone := within_one.fits
  have htwo := within_two.fits
  rcases ht with ⟨hfinite, hlow, hhigh⟩
  cases e with
  | linear => exact ⟨hfinite, hlow, hhigh⟩
  | cubicInOut =>
      rw [apply_halves]
      -- The test for the first half is the same in doubles and in reals, one half being exact.
      have hhalf : t < 0.5 ↔ real t < 1 / 2 := by
        rw [lt_iff_real hfinite within_half.isFinite, within_half.real_eq]
      by_cases h : real t < 1 / 2
      · have hfour : Within (4.0 * t) 0 2 := by
          have hmul := rounds_mul within_four.isFinite hfinite
          rw [within_four.real_eq] at hmul
          exact hmul.between hzero htwo (by linarith) (by linarith)
        have hsquare : Within (4.0 * t * t) 0 1 :=
          (rounds_mul hfour.isFinite hfinite).between hzero hone
            (mul_nonneg hfour.low hlow) (by nlinarith [hfour.low, hfour.high])
        rw [if_pos (hhalf.mpr h)]
        exact (rounds_mul hsquare.isFinite hfinite).between hzero hone
          (mul_nonneg hsquare.low hlow) (mul_le_one₀ hsquare.high hlow hhigh)
      · -- The second half cubes a number from minus one to zero, which is then raised by one.
        have htwice : Within (2.0 * t) 1 2 := by
          have hmul := rounds_mul within_two.isFinite hfinite
          rw [within_two.real_eq] at hmul
          exact hmul.between hone htwo (by linarith) (by linarith)
        have hback : Within (2.0 * t - 2.0) (-1) 0 := by
          have hsub := rounds_sub htwice.isFinite within_two.isFinite
          rw [within_two.real_eq] at hsub
          exact hsub.between hone.neg hzero (by linarith [htwice.low]) (by linarith [htwice.high])
        generalize (2.0 * t - 2.0 : Float) = u at hback ⊢
        have hsquare : Within (u * u) 0 1 :=
          (rounds_mul hback.isFinite hback.isFinite).between hzero hone
            (mul_self_nonneg _) (by nlinarith [hback.low, hback.high])
        have hcube : Within (u * u * u) (-1) 0 :=
          (rounds_mul hsquare.isFinite hback.isFinite).between hone.neg hzero
            (by nlinarith [hback.low, hback.high, hsquare.low, hsquare.high])
            (mul_nonpos_of_nonneg_of_nonpos hsquare.low hback.high)
        have hhalved : Within (u * u * u / 2.0) (-1) 0 := by
          have hdiv := rounds_div hcube.isFinite within_two.isFinite
            (by rw [within_two.real_eq]; exact two_ne_zero)
          rw [within_two.real_eq] at hdiv
          exact hdiv.between hone.neg hzero (by linarith [hcube.low]) (by linarith [hcube.high])
        have hadd := rounds_add hhalved.isFinite within_one.isFinite
        rw [within_one.real_eq] at hadd
        rw [if_neg (mt hhalf.mp h)]
        exact hadd.between hzero hone (by linarith [hhalved.low]) (by linarith [hhalved.high])

theorem isFinite_of_apply (e : Easing) (h : (e.apply t).isFinite = true) : t.isFinite = true := by
  cases e with
  | linear => exact h
  | cubicInOut =>
      rw [apply_halves] at h
      split at h
      · exact (isFinite_of_mul h).2
      · have hcube := (isFinite_of_div (isFinite_of_add h).1).1
        have hback := (isFinite_of_mul hcube).2
        exact (isFinite_of_mul (isFinite_of_sub hback).1).2

end Easing

/-! ### The mean of two speeds -/

/-- The mean of two speeds with a weight on the second. -/
def weighted (l r e : Float) : Float :=
  l * (1.0 - e) + r * e

section Mean

variable {l r e : Float} {a b : ℝ}

theorem within_rest (he : Within e 0 1) : Within (1.0 - e) 0 1 := by
  have hsub := rounds_sub within_one.isFinite he.isFinite
  rw [within_one.real_eq] at hsub
  exact hsub.between within_zero.fits within_one.fits (by linarith [he.high]) (by linarith [he.low])

/-- A mean of speeds that are not negative is not negative. -/
theorem real_weighted_nonneg (hl : 0 ≤ real l) (hr : 0 ≤ real r) (he : Within e 0 1)
    (h : (weighted l r e).isFinite = true) : 0 ≤ real (weighted l r e) := by
  rcases isFinite_of_add h with ⟨hfirst, hsecond⟩
  have hrest := within_rest he
  have hfirst0 : 0 ≤ real (l * (1.0 - e)) :=
    ((rounds_mul (isFinite_of_mul hfirst).1 hrest.isFinite).nearest hfirst).le_of_le onGrid_zero
      (mul_nonneg hl hrest.low)
  have hsecond0 : 0 ≤ real (r * e) :=
    ((rounds_mul (isFinite_of_mul hsecond).1 he.isFinite).nearest hsecond).le_of_le onGrid_zero
      (mul_nonneg hr he.low)
  exact ((rounds_add hfirst hsecond).nearest h).le_of_le onGrid_zero (add_nonneg hfirst0 hsecond0)

/-- One of the two weights is a half at least. With what may be lost by rounding,
    a mean of speeds is half of the smaller at least and twice the larger at most. -/
theorem within_weighted (hl : Within l a b) (hr : Within r a b) (he : Within e 0 1) (ha : 0 ≤ a)
    (hhalf : Fits (a / 2)) (hb : Fits b) (hdouble : Fits (2 * b)) :
    Within (weighted l r e) (a / 2) (2 * b) := by
  have hrest := within_rest he
  have hzero := within_zero.fits
  have hb0 : 0 ≤ b := ha.trans (hl.low.trans hl.high)
  -- A part stays below the larger speed, and one with half the weight or more is half
  -- of the smaller speed at least.
  have hpart : ∀ {x w : Float}, Within x a b → Within w 0 1 → Within (x * w) 0 b ∧
      (1 / 2 ≤ real w → a / 2 ≤ real (x * w)) := by
    intro x w hx hw
    have hmul := rounds_mul hx.isFinite hw.isFinite
    have hlow := hx.low
    have hx0 : 0 ≤ real x := ha.trans hlow
    have hpart : Within (x * w) 0 b :=
      hmul.between hzero hb (mul_nonneg hx0 hw.low)
        ((mul_le_of_le_one_right hx0 hw.high).trans hx.high)
    refine ⟨hpart, fun h => ?_⟩
    exact (hmul.nearest hpart.isFinite).le_of_le hhalf.onGrid (by nlinarith)
  rcases hpart hl hrest with ⟨hfirst, hfirst'⟩
  rcases hpart hr he with ⟨hsecond, hsecond'⟩
  have hadd := rounds_add hfirst.isFinite hsecond.isFinite
  refine hadd.between hhalf hdouble ?_ (by linarith [hfirst.high, hsecond.high])
  by_cases h : 1 / 2 ≤ real e
  · linarith [hsecond' h, hfirst.low]
  · -- The other weight is more than a half, and rounding does not take it below.
    have hsub := rounds_sub within_one.isFinite he.isFinite
    rw [within_one.real_eq] at hsub
    have hmore := (hsub.nearest hrest.isFinite).le_of_le within_half.fits.onGrid (by linarith)
    linarith [hfirst' hmore, hsecond.low]

end Mean

section Between

variable {left right : SpeedPoint Float} {time : Float}

/-- The weight of the right one of two points. -/
def weightAt (e : Easing) (left right : SpeedPoint Float) (time : Float) : Float :=
  e.apply ((time - left.time) / (right.time - left.time))

theorem speedBetween_eq (e : Easing) (left right : SpeedPoint Float) (time : Float) :
    speedBetween e left right time =
      let mean := weighted left.speed right.speed (weightAt e left right time)
      if !mean.isFinite || mean == 0.0 then right.speed else mean := rfl

/-- The speed between two points is their mean if that is a number and not zero,
    and the speed of the right point otherwise. -/
theorem speedBetween_cases (e : Easing) (left right : SpeedPoint Float) (time : Float) :
    speedBetween e left right time = right.speed ∨
      let mean := weighted left.speed right.speed (weightAt e left right time)
      speedBetween e left right time = mean ∧ mean.isFinite = true ∧ real mean ≠ 0 := by
  rw [speedBetween_eq]
  dsimp only
  generalize weighted left.speed right.speed (weightAt e left right time) = mean
  cases hfinite : mean.isFinite with
  | false => exact Or.inl rfl
  | true =>
      cases hzero : mean == 0.0 with
      | true => exact Or.inl rfl
      | false =>
          refine Or.inr ⟨rfl, rfl, fun h => ?_⟩
          -- A mean whose real value is zero passes the test for zero, of whatever sign it is.
          have hbeq : (mean == 0.0) = true := by
            rw [beq_iff_real hfinite within_zero.isFinite, within_zero.real_eq]
            exact h
          rw [hzero] at hbeq
          cases hbeq

/-- The weights of a mean that is a number lie between zero and one. -/
theorem within_weightAt (e : Easing) (hlt : left.time ≤ time) (htr : time ≤ right.time)
    (h : (weighted left.speed right.speed (weightAt e left right time)).isFinite = true) :
    Within (weightAt e left right time) 0 1 := by
  have hweight := (isFinite_of_mul (isFinite_of_add h).2).2
  exact e.within_apply (within_progress hlt htr (e.isFinite_of_apply hweight))

/-- The speed between two points is positive and finite if their speeds are. -/
theorem isPositive_speedBetween (e : Easing) (hlt : left.time ≤ time) (htr : time ≤ right.time)
    (hleft : Scalar.isPositive left.speed = true) (hright : Scalar.isPositive right.speed = true) :
    Scalar.isPositive (speedBetween e left right time) = true := by
  rcases speedBetween_cases e left right time with hspeed | ⟨hspeed, hfinite, hne⟩
  · rw [hspeed]
    exact hright
  · have hnonneg := real_weighted_nonneg ((isPositive_iff_real _).mp hleft).2.le
      ((isPositive_iff_real _).mp hright).2.le (within_weightAt e hlt htr hfinite) hfinite
    rw [hspeed, isPositive_iff_real]
    exact ⟨hfinite, hnonneg.lt_of_ne hne.symm⟩

/-- It is half of the smaller speed at least and twice the larger at most. -/
theorem within_speedBetween {a b : ℝ} (e : Easing) (hlt : left.time ≤ time)
    (htr : time ≤ right.time) (hleft : Within left.speed a b) (hright : Within right.speed a b)
    (ha : 0 ≤ a) (hhalf : Fits (a / 2)) (hb : Fits b) (hdouble : Fits (2 * b)) :
    Within (speedBetween e left right time) (a / 2) (2 * b) := by
  rcases speedBetween_cases e left right time with hspeed | ⟨hspeed, hfinite, -⟩
  · rw [hspeed]
    exact ⟨hright.isFinite, by linarith [hright.low], by linarith [hright.low, hright.high]⟩
  · rw [hspeed]
    exact within_weighted hleft hright (within_weightAt e hlt htr hfinite) ha hhalf hb hdouble

end Between

/-! ### Rounded speeds -/

/-- A speed at the nearest multiple, in units of the last decimal that is kept. -/
def Sampling.units (how : Sampling Float) (speed : Float) : Float :=
  Scalar.round (speed / how.multiple) * how.multiple *
    Scalar.pow 10.0 (Int.bmod how.precision.toNat UInt32.size)

section Rounded

variable {how : Sampling Float} {speed : Float}

/-- The factor has 50 bits at most. -/
theorem ten_pow_le {p : ℕ} (hp : p ≤ 15) : (10 : ℝ) ^ p ≤ 2 ^ (50 : ℤ) :=
  calc (10 : ℝ) ^ p ≤ 10 ^ 15 := pow_le_pow_right₀ (by norm_num) hp
    _ ≤ 2 ^ (50 : ℤ) := by norm_num

theorem within_scale (hp : how.precision ≤ 15) :
    Within (Scalar.pow 10.0 (Int.bmod how.precision.toNat UInt32.size))
      (10 ^ how.precision.toNat) (10 ^ how.precision.toNat) := by
  have hle : how.precision.toNat ≤ 15 := UInt32.le_iff_toNat_le.mp hp
  -- The exponent is a signed word, and fifteen is far from where it wraps.
  have hsmall : Int.bmod how.precision.toNat UInt32.size = how.precision.toNat := by
    have hsize : UInt32.size = 4294967296 := rfl
    rw [hsize]
    exact Int.bmod_eq_of_le (by omega) (by omega)
  have hpow := within_pow_ten hle
  push_cast at hpow
  rw [hsmall]
  exact hpow

/-- A rounded speed can be used if it has a half unit or more before it is
    rounded to whole units. -/
theorem isPositive_roundSpeed_iff (hp : how.precision ≤ 15) :
    Scalar.isPositive (roundSpeed speed how.multiple how.precision) = true ↔
      (how.units speed).isFinite = true ∧ (0.5 : Float) ≤ how.units speed := by
  have hscale := within_scale hp
  have hrounded : roundSpeed speed how.multiple how.precision =
      Scalar.round (how.units speed) /
        Scalar.pow 10.0 (Int.bmod how.precision.toNat UInt32.size) := rfl
  rw [hrounded, isPositive_iff_real]
  generalize Scalar.pow (10.0 : Float) (Int.bmod how.precision.toNat UInt32.size) = scale
    at hscale ⊢
  have hle := ten_pow_le (UInt32.le_iff_toNat_le.mp hp)
  have hpos : (0 : ℝ) < 10 ^ how.precision.toNat := by positivity
  have hne : real scale ≠ 0 := by
    rw [hscale.real_eq]
    exact hpos.ne'
  constructor
  · rintro ⟨hfinite, hresult⟩
    have hwhole := (isFinite_of_div hfinite).1
    have hunits := isFinite_of_round hwhole
    have hround := within_round hunits
    refine ⟨hunits, ?_⟩
    rw [half_le_iff_real hunits]
    by_contra hless
    -- Less than a half is rounded to zero or below, and stays there.
    have hnone : (Exact.nearest (real (how.units speed)) : ℝ) ≤ 0 := by
      have hlt := mt (Exact.one_le_nearest_iff _).mp hless
      exact_mod_cast Int.lt_add_one_iff.mp (not_le.mp hlt)
    have hdiv := (rounds_div hwhole hscale.isFinite hne).nearest hfinite
    have hzero := hdiv.le_of_ge onGrid_zero (by
      rw [hround.real_eq, hscale.real_eq]
      exact div_nonpos_of_nonpos_of_nonneg hnone hpos.le)
    linarith
  · rintro ⟨hunits, hhalf⟩
    rw [half_le_iff_real hunits] at hhalf
    have hround := within_round hunits
    have hsome : (1 : ℝ) ≤ Exact.nearest (real (how.units speed)) := by
      exact_mod_cast (Exact.one_le_nearest_iff _).mpr hhalf
    have hdiv := rounds_div hround.isFinite hscale.isFinite hne
    rw [hround.real_eq, hscale.real_eq] at hdiv
    have hresult : Within (Scalar.round (how.units speed) / scale) (2 ^ (-50 : ℤ))
        (Exact.nearest (real (how.units speed))) := by
      refine hdiv.between (fits_zpow (by decide) (by decide)) hround.fits ?_ ?_
      · rw [zpow_neg, le_div_iff₀ hpos]
        refine le_trans ?_ hsome
        rw [inv_mul_le_iff₀ (by positivity), mul_one]
        exact hle
      · exact div_le_self (by linarith) (one_le_pow₀ (by norm_num))
    exact ⟨hresult.isFinite, lt_of_lt_of_le (by positivity) hresult.low⟩

end Rounded

/-! ### Sampled speeds -/

namespace SpeedMap

variable {m : SpeedMap Float} {time : Float} {left right : SpeedPoint Float}

/-- The segment of a map at a time, if the speed changes in it. -/
def bend? (m : SpeedMap Float) (time : Float) : Option (SpeedPoint Float × SpeedPoint Float) :=
  if m.isPlain then
    none
  else
    match m.segments.find? fun (left, right) => left.time ≤ time && time ≤ right.time with
    | none => none
    | some (left, right) => if left.speed == right.speed then none else some (left, right)

/-- Where the speed changes it is computed, and rounded if there is a multiple to
    round to. -/
theorem sample_of_bend (how : Sampling Float) (h : m.bend? time = some (left, right)) :
    m.sample how time =
        (if 0.0 < how.multiple then
          roundSpeed (speedBetween how.easing left right time) how.multiple how.precision
        else speedBetween how.easing left right time) ∧
      (left, right) ∈ m.segments ∧ left.time ≤ time ∧ time ≤ right.time := by
  unfold bend? at h
  unfold sample
  by_cases hplain : m.isPlain = true
  · rw [if_pos hplain] at h
    cases h
  · rw [if_neg hplain] at h ⊢
    cases hfind : m.segments.find? fun (left, right) => left.time ≤ time && time ≤ right.time with
    | none =>
        rw [hfind] at h
        cases h
    | some segment =>
        rw [hfind] at h
        dsimp only at h ⊢
        -- Between points of one speed nothing bends, so the two speeds are different here.
        by_cases hlevel : (segment.1.speed == segment.2.speed) = true
        · rw [if_pos hlevel] at h
          cases h
        · rw [if_neg hlevel] at h ⊢
          cases h
          have hholds := List.find?_some hfind
          rw [Bool.and_eq_true, decide_eq_true_iff, decide_eq_true_iff] at hholds
          exact ⟨rfl, List.mem_of_find?_eq_some hfind, hholds⟩

/-- Elsewhere the speed is that of a point, or one. -/
theorem sample_of_level (how : Sampling Float) (h : m.bend? time = none) :
    m.sample how time = 1.0 ∨ ∃ p ∈ m.points, m.sample how time = p.speed := by
  unfold bend? at h
  unfold sample
  -- A plain map and a level segment have the speed of a point, and outside it is one.
  by_cases hplain : m.isPlain = true
  · rw [if_pos hplain]
    exact Or.inr ⟨m.first, List.mem_cons_self, rfl⟩
  · rw [if_neg hplain] at h ⊢
    cases hfind : m.segments.find? fun (left, right) => left.time ≤ time && time ≤ right.time with
    | none => exact Or.inl rfl
    | some segment =>
        rw [hfind] at h
        dsimp only at h ⊢
        by_cases hlevel : (segment.1.speed == segment.2.speed) = true
        · rw [if_pos hlevel]
          exact Or.inr ⟨segment.1, (List.of_mem_zip (List.mem_of_find?_eq_some hfind)).1, rfl⟩
        · rw [if_neg hlevel] at h
          cases h

/-- Before it is rounded, the speed at a time can be used. -/
theorem Sound.isPositive_between (hm : m.Sound) (e : Easing)
    (h : (left, right) ∈ m.segments) (hlt : left.time ≤ time) (htr : time ≤ right.time) :
    Scalar.isPositive (speedBetween e left right time) = true := by
  rcases mem_points_of_mem_segments h with ⟨hleft, hright⟩
  exact isPositive_speedBetween e hlt htr (hm.speed left hleft) (hm.speed right hright)

end SpeedMap

namespace Sampling

variable {how : Sampling Float} {m : SpeedMap Float} {time : Float}

/-- The rounding leaves a speed that can be used at a time: where the speed
    changes, it has a half unit or more and has not overflowed. -/
def Keeps (how : Sampling Float) (m : SpeedMap Float) (time : Float) : Prop :=
  ∀ left right, m.bend? time = some (left, right) → (0.0 : Float) < how.multiple →
    (how.units (speedBetween how.easing left right time)).isFinite = true ∧
      (0.5 : Float) ≤ how.units (speedBetween how.easing left right time)

/-- A rounding that leaves speeds that can be used at all times: the multiple is
    more than half a unit, and the speeds of the map are no less than it and not
    so large that they overflow. -/
structure Suits (how : Sampling Float) (m : SpeedMap Float) : Prop where
  finite : how.multiple.isFinite = true
  unit : (0.5 : Float) <
    how.multiple * Scalar.pow 10.0 (Int.bmod how.precision.toNat UInt32.size)
  speed : ∀ p ∈ m.points, how.multiple ≤ p.speed ∧ p.speed ≤ 1e15

/-- A sampled speed can be used just where the rounding keeps it. -/
theorem isPositive_sample_iff (hm : m.Sound) (hp : how.precision ≤ 15) :
    Scalar.isPositive (m.sample how time) = true ↔ how.Keeps m time := by
  cases hbend : m.bend? time with
  | none =>
      have hkeeps : how.Keeps m time := by
        intro left right h
        rw [hbend] at h
        cases h
      refine iff_of_true ?_ hkeeps
      rcases SpeedMap.sample_of_level how hbend with hone | ⟨p, hmem, hspeed⟩
      · rw [hone]
        rfl
      · rw [hspeed]
        exact hm.speed p hmem
  | some segment =>
      obtain ⟨left, right⟩ := segment
      rcases SpeedMap.sample_of_bend how hbend with ⟨hsample, hmem, hlt, htr⟩
      -- Keeping the speed speaks of every bend at this time, and there is just this one.
      have hkeeps : how.Keeps m time ↔ ((0.0 : Float) < how.multiple →
          Scalar.isPositive (roundSpeed (speedBetween how.easing left right time)
            how.multiple how.precision) = true) := by
        rw [isPositive_roundSpeed_iff hp]
        constructor
        · intro h
          exact h left right hbend
        · intro h left' right' hbend'
          rw [hbend] at hbend'
          cases hbend'
          exact h
      rw [hsample, hkeeps]
      by_cases hpos : (0.0 : Float) < how.multiple
      · rw [if_pos hpos]
        exact ⟨fun h _ => h, fun h => h hpos⟩
      · rw [if_neg hpos]
        exact iff_of_true (hm.isPositive_between how.easing hmem hlt htr) fun h => absurd h hpos

/-- The largest speed that suits has no more bits than the factor. -/
theorem within_top : Within 1e15 0 (2 ^ (50 : ℤ)) := by
  have hunpack : (1e15 : Float).toModel.unpack =
      .finite .positive (8 * 10 ^ 15) (-3) (by decide) := by rfl
  have hreal : real 1e15 = 10 ^ 15 := by
    rw [real_of_unpack hunpack, signed]
    norm_num
  refine ⟨by rfl, ?_, ?_⟩
  · rw [hreal]
    positivity
  · rw [hreal]
    exact ten_pow_le le_rfl

namespace Suits

theorem within_speed (h : how.Suits m) (hm : m.Sound) :
    ∀ p ∈ m.points, Within p.speed (real how.multiple) (2 ^ (50 : ℤ)) := by
  intro p hp
  have hfinite := (Bool.and_eq_true_iff.mp (hm.speed p hp)).1
  rcases h.speed p hp with ⟨hlow, htop⟩
  rw [le_iff_real h.finite hfinite] at hlow
  rw [le_iff_real hfinite within_top.isFinite] at htop
  exact ⟨hfinite, hlow, htop.trans within_top.high⟩

/-- The multiple of a rounding that suits is more than half a unit. It is not
    very small, and no larger than a speed. -/
theorem multiple_bounds (h : how.Suits m) (hm : m.Sound) (hp : how.precision ≤ 15)
    (hpos : (0.0 : Float) < how.multiple) :
    2 ^ (-51 : ℤ) < real how.multiple ∧ real how.multiple ≤ 2 ^ (50 : ℤ) ∧
      1 / 2 < real how.multiple * 10 ^ how.precision.toNat := by
  have hscale := within_scale hp
  have hle := ten_pow_le (UInt32.le_iff_toNat_le.mp hp)
  have hone : (1 : ℝ) ≤ 10 ^ how.precision.toNat := one_le_pow₀ (by norm_num)
  rw [zero_lt_iff_real h.finite] at hpos
  have hfirst := h.within_speed hm m.first List.mem_cons_self
  have hunit := h.unit
  generalize Scalar.pow (10.0 : Float) (Int.bmod how.precision.toNat UInt32.size) = scale
    at hscale hunit
  have hmul := rounds_mul h.finite hscale.isFinite
  rw [hscale.real_eq] at hmul
  -- A product of a half or less would be rounded to a half or less.
  have hhalf : 1 / 2 < real how.multiple * 10 ^ how.precision.toNat := by
    by_contra hless
    have hbelow := hmul.between within_zero.fits within_half.fits (by positivity) (not_lt.mp hless)
    rw [lt_iff_real within_half.isFinite hbelow.isFinite, within_half.real_eq] at hunit
    exact absurd hunit (not_lt.mpr hbelow.high)
  refine ⟨?_, hfirst.low.trans hfirst.high, hhalf⟩
  -- The scale is below a power of two, which leaves the multiple its own lower bound.
  have hlow : 1 / 2 < real how.multiple * 2 ^ (50 : ℤ) :=
    hhalf.trans_le (mul_le_mul_of_nonneg_left hle hpos.le)
  have hsplit : (2 : ℝ) ^ (-51 : ℤ) * 2 ^ (50 : ℤ) = 1 / 2 := by norm_num
  rw [← hsplit] at hlow
  exact lt_of_mul_lt_mul_right hlow (by positivity)

/-- A speed of half the multiple or more goes to one multiple or more. -/
theorem within_multiples (h : how.Suits m) (hm : m.Sound) (hp : how.precision ≤ 15)
    (hpos : (0.0 : Float) < how.multiple) {speed : Float}
    (hspeed : Within speed (real how.multiple / 2) (2 ^ (51 : ℤ))) :
    Within (Scalar.round (speed / how.multiple)) 1 (2 ^ (103 : ℤ)) := by
  rcases h.multiple_bounds hm hp hpos with ⟨hlow, -, -⟩
  have hM : 0 < real how.multiple := lt_trans (by positivity) hlow
  have hquotient : Within (speed / how.multiple) (1 / 2) (2 ^ (102 : ℤ)) := by
    refine (rounds_div hspeed.isFinite h.finite hM.ne').between within_half.fits
      (fits_zpow (by decide) (by decide)) ?_ ?_
    · rw [le_div_iff₀ hM]
      linarith [hspeed.low]
    · rw [div_le_iff₀ hM]
      calc real speed ≤ 2 ^ (51 : ℤ) := hspeed.high
        _ = 2 ^ (102 : ℤ) * 2 ^ (-51 : ℤ) := zpow_add₀ two_ne_zero 102 (-51)
        _ ≤ 2 ^ (102 : ℤ) * real how.multiple :=
          mul_le_mul_of_nonneg_left hlow.le (by positivity)
  -- Half a multiple is rounded away from zero, and nothing is raised by more than a half.
  have hround := within_round hquotient.isFinite
  have hsome : (1 : ℝ) ≤ Exact.nearest (real (speed / how.multiple)) := by
    exact_mod_cast (Exact.one_le_nearest_iff _).mpr hquotient.low
  have hnear := (abs_le.mp (Exact.abs_nearest_sub_le (real (speed / how.multiple)))).2
  have hdouble : (2 : ℝ) ^ (102 : ℤ) + 1 / 2 ≤ 2 ^ (103 : ℤ) := by norm_num
  refine ⟨hround.isFinite, hsome.trans hround.low, hround.high.trans ?_⟩
  linarith [hquotient.high]

/-- No step of the rounding takes such a speed to zero, or one that is not too large
    over the top. -/
theorem within_units (h : how.Suits m) (hm : m.Sound) (hp : how.precision ≤ 15)
    (hpos : (0.0 : Float) < how.multiple) {speed : Float}
    (hspeed : Within speed (real how.multiple / 2) (2 ^ (51 : ℤ))) :
    Within (how.units speed) (1 / 2) (2 ^ (203 : ℤ)) := by
  rcases h.multiple_bounds hm hp hpos with ⟨hlow, hhigh, hhalf⟩
  have hround := h.within_multiples hm hp hpos hspeed
  have hscale := within_scale hp
  have hle := ten_pow_le (UInt32.le_iff_toNat_le.mp hp)
  have hM : 0 < real how.multiple := lt_trans (by positivity) hlow
  -- Whole multiples are one multiple at least, then the decimals scale both ends.
  have hsnapped : Within (Scalar.round (speed / how.multiple) * how.multiple)
      (real how.multiple) (2 ^ (153 : ℤ)) := by
    refine (rounds_mul hround.isFinite h.finite).between (fits_real h.finite)
      (fits_zpow (by decide) (by decide)) (le_mul_of_one_le_left hM.le hround.low) ?_
    calc real (Scalar.round (speed / how.multiple)) * real how.multiple
        ≤ 2 ^ (103 : ℤ) * 2 ^ (50 : ℤ) := mul_le_mul hround.high hhigh hM.le (by positivity)
      _ = 2 ^ (153 : ℤ) := (zpow_add₀ two_ne_zero 103 50).symm
  have hmul := rounds_mul hsnapped.isFinite hscale.isFinite
  rw [hscale.real_eq] at hmul
  refine hmul.between within_half.fits (fits_zpow (by decide) (by decide)) ?_ ?_
  · exact hhalf.le.trans (mul_le_mul_of_nonneg_right hsnapped.low (by positivity))
  · calc real (Scalar.round (speed / how.multiple) * how.multiple) * 10 ^ how.precision.toNat
        ≤ 2 ^ (153 : ℤ) * 2 ^ (50 : ℤ) :=
          mul_le_mul hsnapped.high hle (by positivity) (by positivity)
      _ = 2 ^ (203 : ℤ) := (zpow_add₀ two_ne_zero 153 50).symm

/-- A rounding that suits keeps the speed at every time. -/
theorem keeps (h : how.Suits m) (hm : m.Sound) (hp : how.precision ≤ 15) : how.Keeps m time := by
  intro left right hbend hpos
  rcases h.multiple_bounds hm hp hpos with ⟨hlow, -, -⟩
  rcases SpeedMap.sample_of_bend how hbend with ⟨-, hmem, hlt, htr⟩
  rcases SpeedMap.mem_points_of_mem_segments hmem with ⟨hleft, hright⟩
  have hM : 0 < real how.multiple := lt_trans (by positivity) hlow
  have hdouble : 2 * (2 : ℝ) ^ (50 : ℤ) = 2 ^ (51 : ℤ) := by norm_num
  -- The multiple is far from the smallest doubles, so that its half is a double too.
  have hlarge : 2 ^ (-1021 : ℤ) < |real how.multiple| := by
    rw [abs_of_pos hM]
    exact (zpow_lt_zpow_right₀ one_lt_two (by decide)).trans hlow
  have htwice : Fits (2 * 2 ^ (50 : ℤ)) := by
    rw [hdouble]
    exact fits_zpow (by decide) (by decide)
  have hbetween := within_speedBetween how.easing hlt htr (h.within_speed hm left hleft)
    (h.within_speed hm right hright) hM.le ((fits_real h.finite).half hlarge)
    (fits_zpow (by decide) (by decide)) htwice
  rw [hdouble] at hbetween
  have hunits := h.within_units hm hp hpos hbetween
  exact ⟨hunits.isFinite, (half_le_iff_real hunits.isFinite).mpr hunits.low⟩

end Suits

end Sampling

/-! ### Rates of a preview -/

/-- A tick tells the player the rate of the preview, or to go back to normal. -/
theorem mem_rates {session : Session Float} {store : Store Float} {settings : Settings Float}
    {now r : Float} (h : .rate r ∈ (duckingTick session store settings now).calls) :
    r = rateAt session store settings now ∨ r = 1.0 := by
  -- A call is only made when the rate has changed, and then it holds the rate.
  have hchanged : ∀ {b : Bool}, PlayerCall.rate r ∈
      (if b then [PlayerCall.rate (rateAt session store settings now)] else []) →
      r = rateAt session store settings now := by
    intro b h
    cases b with
    | true =>
        rw [if_pos rfl, List.mem_singleton] at h
        exact PlayerCall.rate.inj h
    | false => cases h
  unfold duckingTick at h
  cases hducking : session.ducking with
  | true =>
      rw [hducking] at h
      exact Or.inl (hchanged h)
  | false =>
      rw [hducking] at h
      rcases List.mem_append.mp h with h | h
      · exact Or.inl (hchanged h)
      · -- Once the preview is off, the last call goes back to normal.
        rw [List.mem_singleton] at h
        exact Or.inr (PlayerCall.rate.inj h)

/-- The rate of a preview can be used, unless the rounding of the pair that decides
    does not keep its speed. -/
theorem isPositive_rateAt {session : Session Float} {store : Store Float}
    (settings : Settings Float) (now : Float) (hsound : ∀ p ∈ store.pairs, p.map.Sound)
    (hp : session.precision ≤ 15) :
    Scalar.isPositive (rateAt session store settings now) = true ∨
      ∃ i p, store.shortestAt now = some i ∧ store.Drives now i p ∧
        settings.speedMapsFor p.overrides = true ∧
        let how : Sampling Float :=
          ⟨session.easing, settings.roundingFor p.overrides, session.precision⟩
        rateAt session store settings now = p.map.sample how now ∧ ¬ how.Keeps p.map now := by
  cases hshortest : store.shortestAt now with
  | none =>
      rw [rateAt_idle session settings hshortest]
      exact Or.inl rfl
  | some i =>
      rcases Store.drives_of_shortestAt hshortest with ⟨p, hdrives⟩
      have hm := hsound p (List.mem_of_getElem? hdrives.1)
      have hrate := rateAt_driven session settings hshortest hdrives
      cases hmaps : settings.speedMapsFor p.overrides with
      | false =>
          rw [hrate, hmaps]
          exact Or.inl (hm.speed p.map.first List.mem_cons_self)
      | true =>
          rw [hmaps, if_pos rfl] at hrate
          -- With speeds applied the rate is a sample, which can be used just if the
          -- rounding keeps it.
          by_cases hkeeps : Sampling.Keeps
            ⟨session.easing, settings.roundingFor p.overrides, session.precision⟩ p.map now
          · rw [hrate]
            exact Or.inl ((Sampling.isPositive_sample_iff hm hp).mpr hkeeps)
          · exact Or.inr ⟨i, p, rfl, hdrives, hmaps, hrate, hkeeps⟩

/-- With no more than 15 decimals, a sampled speed is positive and finite just
    where the rounding keeps it, and it does at all times if there is no multiple to
    round to or the rounding suits the map. So the rates that a preview gives the
    player are positive and finite, but for the one of a pair whose speeds are
    applied and whose rounding does not keep the speed of the moment. -/
theorem preview_rates_usable (precision : UInt32) (hp : precision ≤ 15) :
    (∀ (easing : Easing) (multiple : Float) (m : SpeedMap Float) (time : Float), m.flaw? = none →
      let how : Sampling Float := ⟨easing, multiple, precision⟩
      (Scalar.isPositive (m.sample how time) = true ↔ how.Keeps m time) ∧
        (((0.0 : Float) < multiple → how.Suits m) →
          Scalar.isPositive (m.sample how time) = true)) ∧
    ∀ (session : Session Float) (store : Store Float) (settings : Settings Float) (now r : Float),
      (∀ p ∈ store.pairs, p.map.flaw? = none) → session.precision = precision →
      .rate r ∈ (duckingTick session store settings now).calls →
      Scalar.isPositive r = true ∨
        ∃ i p, store.shortestAt now = some i ∧ store.Drives now i p ∧
          settings.speedMapsFor p.overrides = true ∧
          let how : Sampling Float :=
            ⟨session.easing, settings.roundingFor p.overrides, precision⟩
          r = p.map.sample how now ∧ ¬ how.Keeps p.map now := by
  constructor
  · intro easing multiple m time hflaw how
    have hm := (SpeedMap.flaw?_eq_none_iff m).mp hflaw
    have hiff : Scalar.isPositive (m.sample how time) = true ↔ how.Keeps m time :=
      Sampling.isPositive_sample_iff hm hp
    refine ⟨hiff, fun hsuits => hiff.mpr ?_⟩
    intro left right hbend hpos
    exact (hsuits hpos).keeps hm hp left right hbend hpos
  · intro session store settings now r hflaw hprecision hcall
    have hsound : ∀ p ∈ store.pairs, p.map.Sound := fun p hmem =>
      (SpeedMap.flaw?_eq_none_iff _).mp (hflaw p hmem)
    rw [← hprecision] at hp ⊢
    -- A rate that was told is the one of the preview, or the normal one.
    rcases mem_rates hcall with rfl | rfl
    · exact isPositive_rateAt settings now hsound hp
    · exact Or.inl rfl

/-- The factor of two decimals. -/
theorem pow_two_decimals :
    Scalar.pow (10.0 : Float) (Int.bmod (2 : UInt32).toNat UInt32.size) = 100.0 := by
  have htwo : Int.bmod (2 : UInt32).toNat UInt32.size = 2 := by decide
  have hpow : Scalar.pow (10.0 : Float) 2 = Scalar.powFrom 1.0 10.0 2 := rfl
  rw [htwo, hpow, Scalar.powFrom, dif_neg (by decide), Scalar.powFrom, dif_pos (by decide)]
  decide +kernel

/-- A store with a pair of one map. -/
def storeOf (m : SpeedMap Float) : Store Float where
  pairs := [.ofMap m .full]
  parked := .empty Parked.storeLimit
  pending := none
  grid := ⟨30.0⟩
  engine := ⟨30.0⟩

/-- A map that slows down to a quarter of its speed. -/
def slowingMap : SpeedMap Float :=
  ⟨⟨0.0, 1.0⟩, [], ⟨1.0, 0.25⟩⟩

/-- The rounding of a new session suits it, so that all rates of a preview can be
    used. -/
theorem preview_rates_usable_slowing :
    Sampling.Suits ⟨.linear, 0.05, 2⟩ slowingMap ∧
      (∀ time, Scalar.isPositive (slowingMap.sample ⟨.linear, 0.05, 2⟩ time) = true) ∧
      ∀ now r, .rate r ∈ (duckingTick .initial (storeOf slowingMap) .initial now).calls →
        Scalar.isPositive r = true := by
  have hsuits : Sampling.Suits ⟨.linear, 0.05, 2⟩ slowingMap := by
    refine ⟨by decide, ?_, by decide⟩
    -- One twentieth of a hundred is five, and the power is read off rather than computed.
    change (0.5 : Float) < 0.05 * Scalar.pow 10.0 (Int.bmod (2 : UInt32).toNat UInt32.size)
    rw [pow_two_decimals]
    decide
  rcases preview_rates_usable 2 (by decide) with ⟨hsample, hticks⟩
  have husable : ∀ time,
      Scalar.isPositive (slowingMap.sample ⟨.linear, 0.05, 2⟩ time) = true := fun time =>
    (hsample .linear 0.05 slowingMap time (by decide)).2 fun _ => hsuits
  refine ⟨hsuits, husable, fun now r hcall => ?_⟩
  rcases hticks .initial (storeOf slowingMap) .initial now r (by decide) rfl hcall with
    h | ⟨i, p, -, hdrives, -, hrate, -⟩
  · exact h
  · rcases List.mem_singleton.mp (List.mem_of_getElem? hdrives.1) with rfl
    rw [hrate]
    exact husable now

/-- A map whose speeds are less than half of the multiple that a new session
    rounds to. -/
def crawlingMap : SpeedMap Float :=
  ⟨⟨0.0, 0.02⟩, [], ⟨1.0, 0.01⟩⟩

/-- Half way through a pair of that map, the preview of a new session tells the
    player to play at rate zero. The map is sound, and there is nothing unusual
    about the rounding. -/
theorem preview_rate_vanishes :
    (∀ p ∈ (storeOf crawlingMap).pairs, p.map.flaw? = none) ∧
      .rate 0.0 ∈ (duckingTick .initial (storeOf crawlingMap) .initial 0.5).calls ∧
      ¬ ∀ (how : Sampling Float) (m : SpeedMap Float) (time : Float), m.flaw? = none →
        how.multiple.isFinite = true → (0.0 : Float) ≤ how.multiple → how.precision ≤ 15 →
        Scalar.isPositive (m.sample how time) = true := by
  have hsample : crawlingMap.sample ⟨.linear, 0.05, 2⟩ 0.5 = 0.0 := by
    have hbend : crawlingMap.bend? 0.5 = some (⟨0.0, 0.02⟩, ⟨1.0, 0.01⟩) := by rfl
    -- The speed is 0.015 there, and the nearest multiple of 0.05 to that is zero.
    rw [(SpeedMap.sample_of_bend _ hbend).1, if_pos (by decide)]
    unfold roundSpeed Scalar.roundTo
    dsimp only
    rw [pow_two_decimals]
    decide +kernel
  have hrate : rateAt .initial (storeOf crawlingMap) .initial 0.5 = 0.0 := by
    have hshortest : (storeOf crawlingMap).shortestAt 0.5 = some 0 := by decide
    unfold rateAt
    rw [hshortest]
    exact hsample
  refine ⟨by decide, ?_, fun h => ?_⟩
  · unfold duckingTick
    rw [hrate]
    exact List.mem_cons_self
  · have hpositive := h ⟨.linear, 0.05, 2⟩ crawlingMap 0.5 (by decide) (by decide) (by decide)
      (by decide)
    rw [hsample] at hpositive
    cases hpositive

end Retime
