import Retime.Proofs.Nearest
import Retime.Speed.Sample

/-!
# Rounded Speeds

What a speed is rounded to, and what a second rounding makes of it.

A speed is brought to the nearest multiple of one number and then to the nearest
multiple of another, the unit of its last decimal. The two need not have anything
to do with each other: a multiple of a twentieth is in general no number of one
decimal. Still the two together settle at once. The coarser of the two decides. If
it is the first, the second moves a multiple by less than a half of what lies
between multiples, and the first brings it back to where it was. If it is the
second, the same holds of a number of few decimals. If they are equally coarse the
second has nothing to do.

The number of decimals is a word without a sign that is read as one with a sign.
Up to `2 ^ 31` this makes no difference. From there on the number is negative, and
speeds are rounded to tens, hundreds and so on. They are still rounded in order and
once for all, but they are not near to what they were.

## Main definitions

* `NearestMultiple`: A multiple that none is nearer than, halves going away from
  zero.
* `Exact.snap`: The nearest multiple.
* `decimalUnit`: The unit of the last decimal that is kept.

## Theorems

* `NearestMultiple.unique`: A number has one nearest multiple.
* `Exact.snap_snap_of_lt`: A coarser grid is found again after a finer one.
* `roundSpeed_eq`, `roundSpeed_eq_iff`: Rounding a speed is going to two grids.
* `monotone_roundSpeed`, `roundSpeed_roundSpeed`, `abs_roundSpeed_sub_le`: What that
  keeps, and by how much it is off.
* `speed_rounding_projects`: Rounded speeds keep their order and stay as they are,
  and are near to what was rounded if and only if there are less than `2 ^ 31`
  decimals.
* `speed_rounding_wraps`: They are not always near.
-/

namespace Retime

/-- A multiple of `unit` that none is nearer than to `x`. Of two that are equally
    near it is the one away from zero. -/
structure NearestMultiple (unit x y : ℝ) : Prop where
  multiple : ∃ k : ℤ, y = k * unit
  least : ∀ k : ℤ, |y - x| ≤ |k * unit - x|
  away : ∀ k : ℤ, |k * unit - x| = |y - x| → |k * unit| ≤ |y|

/-- A number has one nearest multiple. -/
theorem NearestMultiple.unique {unit x y z : ℝ} (hy : NearestMultiple unit x y)
    (hz : NearestMultiple unit x z) : y = z := by
  rcases hy.multiple with ⟨j, hj⟩
  rcases hz.multiple with ⟨k, hk⟩
  have hyz := hy.least k
  have hzy := hz.least j
  rw [← hk] at hyz
  rw [← hj] at hzy
  have hnear : |y - x| = |z - x| := le_antisymm hyz hzy
  have hsize : |y| = |z| := by
    have hle := hz.away j (by rw [← hj, hnear])
    have hge := hy.away k (by rw [← hk, hnear])
    rw [← hj] at hle
    rw [← hk] at hge
    exact le_antisymm hle hge
  rcases abs_eq_abs.mp hsize with heq | hopposite
  · exact heq
  -- Opposite multiples are equally near to zero only, which is a multiple itself.
  · have hx : x = 0 ∨ z = 0 := by
      rw [hopposite] at hnear
      rcases abs_eq_abs.mp hnear with h | h
      · exact Or.inr (by linarith)
      · exact Or.inl (by linarith)
    rcases hx with rfl | hzero
    · have hnone := hz.least 0
      rw [Int.cast_zero, zero_mul, sub_self, abs_zero, sub_zero] at hnone
      have hzero : z = 0 := abs_nonpos_iff.mp hnone
      rw [hopposite, hzero, neg_zero]
    · rw [hopposite, hzero, neg_zero]

namespace Exact

theorem nearest_neg (x : ℝ) : nearest (-x) = -nearest x := by
  unfold nearest
  rcases lt_trichotomy x 0 with h | rfl | h
  · rw [if_neg (by linarith), if_pos h, neg_neg]
  · norm_num
  · rw [if_pos (by linarith), if_neg (by linarith), neg_neg]

/-- Of two whole numbers that are equally near, rounding takes the one away from
    zero. -/
theorem abs_le_abs_nearest {x : ℝ} {k : ℤ} (h : |(k : ℝ) - x| = |(nearest x : ℝ) - x|) :
    |k| ≤ |nearest x| := by
  -- Below zero the same is said of the opposite numbers.
  wlog hx : 0 ≤ x generalizing x k
  · have hopposite : |((-k : ℤ) : ℝ) - -x| = |(nearest (-x) : ℝ) - -x| := by
      rw [nearest_neg, Int.cast_neg, Int.cast_neg, ← neg_sub', ← neg_sub', abs_neg, abs_neg, h]
    have hle := this hopposite (by linarith)
    rwa [nearest_neg, abs_neg, abs_neg] at hle
  by_cases heq : k = nearest x
  · rw [heq]
  have hone := Double.one_le_abs_sub heq
  have htriangle := abs_sub_le (k : ℝ) x (nearest x)
  have hhalf := abs_nearest_sub_le x
  have hnearest : nearest x = ⌊x + 1 / 2⌋ := if_neg (not_lt.mpr hx)
  have hlt := Int.lt_floor_add_one (x + 1 / 2)
  rw [abs_sub_comm x, h] at htriangle
  rw [← hnearest] at hlt
  -- Two different whole numbers that are equally near are a half away, on two sides.
  have hup : (nearest x : ℝ) - x = 1 / 2 := by
    rcases eq_or_eq_neg_of_abs_eq (le_antisymm hhalf (by linarith)) with hup | hdown
    · exact hup
    · linarith
  have hdown : (k : ℝ) - x = -(1 / 2) := by
    rcases abs_eq_abs.mp h with hsame | hdown
    · have hcast : (k : ℝ) = nearest x := by linarith
      exact absurd (Int.cast_injective hcast) heq
    · rw [hdown, hup]
  have hpos : (0 : ℤ) ≤ nearest x := (nearest_nonneg_iff x).mpr (by linarith)
  have hcast : |(k : ℝ)| ≤ nearest x := abs_le.mpr ⟨by linarith, by linarith⟩
  rw [abs_of_nonneg hpos]
  exact_mod_cast hcast

/-- The nearest multiple of a number, halves going away from zero. -/
noncomputable def snap (unit x : ℝ) : ℝ :=
  nearest (x / unit) * unit

section Snap

variable {unit : ℝ}

/-- A multiple is the nearest one to what it was taken from. -/
theorem nearestMultiple_snap (hunit : 0 < unit) (x : ℝ) :
    NearestMultiple unit x (snap unit x) := by
  refine ⟨⟨_, rfl⟩, fun k => ?_, fun k hk => ?_⟩
  · rw [snap, ← Double.abs_sub_div_mul hunit, ← Double.abs_sub_div_mul hunit]
    exact mul_le_mul_of_nonneg_right
      (Double.abs_sub_le_of_half (abs_nearest_sub_le (x / unit)) k) hunit.le
  · rw [snap, ← Double.abs_sub_div_mul hunit, ← Double.abs_sub_div_mul hunit,
      mul_left_inj' hunit.ne'] at hk
    rw [snap, abs_mul, abs_mul]
    refine mul_le_mul_of_nonneg_right ?_ (abs_nonneg unit)
    exact_mod_cast abs_le_abs_nearest hk

/-- Going to multiples keeps the order. -/
theorem monotone_snap (hunit : 0 < unit) : Monotone (snap unit) := by
  intro x y h
  have hnearest := nearest_mono (div_le_div_of_nonneg_right h hunit.le)
  exact mul_le_mul_of_nonneg_right (Int.cast_le.mpr hnearest) hunit.le

/-- The nearest multiple is half a unit away at most. -/
theorem abs_snap_sub_le (hunit : 0 < unit) (x : ℝ) : |snap unit x - x| ≤ unit / 2 := by
  rw [snap, ← Double.abs_sub_div_mul hunit]
  have hhalf := mul_le_mul_of_nonneg_right (abs_nearest_sub_le (x / unit)) hunit.le
  linarith

/-- What is less than half a unit away from a multiple goes to it. -/
theorem snap_eq (hunit : 0 < unit) {x : ℝ} (k : ℤ) (h : |k * unit - x| < unit / 2) :
    snap unit x = k * unit := by
  rw [← Double.abs_sub_div_mul hunit, abs_sub_comm] at h
  have hhalf : |x / unit - k| < 1 / 2 := by
    by_contra hfar
    have hle := mul_le_mul_of_nonneg_right (not_lt.mp hfar) hunit.le
    linarith
  rw [snap, nearest_eq hhalf]

/-- A multiple stays as it is. -/
theorem snap_multiple (hunit : 0 < unit) (k : ℤ) : snap unit (k * unit) = k * unit := by
  refine snap_eq hunit k ?_
  rw [sub_self, abs_zero]
  exact half_pos hunit

/-- A multiple of the coarser unit is found again after it was brought to a
    multiple of the finer one. -/
theorem snap_snap_of_lt {fine coarse : ℝ} (hfine : 0 < fine) (h : fine < coarse) (k : ℤ) :
    snap coarse (snap fine (k * coarse)) = k * coarse := by
  refine snap_eq (hfine.trans h) k ?_
  rw [abs_sub_comm]
  exact lt_of_le_of_lt (abs_snap_sub_le hfine _) (by linarith)

/-- Two grids, one after the other, have nothing left to do the second time. -/
theorem snap_snap_settled {first second : ℝ} (hfirst : 0 < first) (hsecond : 0 < second) (x : ℝ) :
    snap second (snap first (snap second (snap first x))) = snap second (snap first x) := by
  rcases lt_trichotomy first second with h | rfl | h
  -- Whatever the first grid does to a multiple of the coarser second is undone.
  · exact snap_snap_of_lt hfirst h _
  · have htwice : ∀ y, snap first (snap first y) = snap first y :=
      fun y => snap_multiple hfirst _
    rw [htwice, htwice]
  · have hback : snap first (snap second (snap first x)) = snap first x :=
      snap_snap_of_lt hsecond h _
    rw [hback]

end Snap

end Exact

open Exact

/-- The unit of the last decimal that is kept. The number of decimals is a signed
    word. -/
noncomputable def decimalUnit (precision : UInt32) : ℝ :=
  10 ^ (-Int.bmod precision.toNat UInt32.size)

theorem decimalUnit_pos (precision : UInt32) : 0 < decimalUnit precision :=
  zpow_pos (by norm_num) _

theorem bmod_of_lt {precision : UInt32} (h : precision.toNat < 2 ^ 31) :
    Int.bmod precision.toNat UInt32.size = precision.toNat := by
  have hsize : UInt32.size = 4294967296 := rfl
  rw [hsize, Int.bmod_def]
  omega

theorem bmod_of_le {precision : UInt32} (h : 2 ^ 31 ≤ precision.toNat) :
    Int.bmod precision.toNat UInt32.size = precision.toNat - 2 ^ 32 := by
  have hsize : UInt32.size = 4294967296 := rfl
  have hlt := precision.toNat_lt
  rw [hsize, Int.bmod_def]
  omega

/-- Below `2 ^ 31` decimals it is the number that is written so. -/
theorem decimalUnit_of_lt {precision : UInt32} (h : precision.toNat < 2 ^ 31) :
    decimalUnit precision = (10 ^ precision.toNat)⁻¹ := by
  rw [decimalUnit, bmod_of_lt h, zpow_neg, zpow_natCast]

/-- From there on it is ten or more. -/
theorem ten_le_decimalUnit {precision : UInt32} (h : 2 ^ 31 ≤ precision.toNat) :
    10 ≤ decimalUnit precision := by
  have hlt := precision.toNat_lt
  have hpower : (10 : ℝ) ^ (1 : ℤ) ≤ decimalUnit precision := by
    rw [decimalUnit, bmod_of_le h]
    exact zpow_le_zpow_right₀ (by norm_num) (by omega)
  rwa [zpow_one] at hpower

/-- Rounding a speed is going to the multiples and then to the decimals. -/
theorem roundSpeed_eq (speed multiple : ℝ) (precision : UInt32) :
    roundSpeed speed multiple precision = snap (decimalUnit precision) (snap multiple speed) := by
  have hten : (10.0 : ℝ) = 10 := by norm_num
  change Scalar.round (Scalar.round (speed / multiple) * multiple *
      Scalar.pow 10.0 (Int.bmod precision.toNat UInt32.size)) /
    Scalar.pow 10.0 (Int.bmod precision.toNat UInt32.size) = _
  rw [round_eq, hten, pow_eq, round_eq, snap, decimalUnit, zpow_neg, div_inv_eq_mul,
    div_eq_mul_inv]
  rfl

/-- Rounding a speed goes to the nearest multiple, and from there to the nearest
    number of so many decimals. -/
theorem roundSpeed_eq_iff {multiple : ℝ} (hmultiple : 0 < multiple) (speed : ℝ)
    (precision : UInt32) (rounded : ℝ) : roundSpeed speed multiple precision = rounded ↔
      ∃ between, NearestMultiple multiple speed between ∧
        NearestMultiple (decimalUnit precision) between rounded := by
  have hbetween := nearestMultiple_snap hmultiple speed
  have hrounded := nearestMultiple_snap (decimalUnit_pos precision) (snap multiple speed)
  rw [roundSpeed_eq]
  constructor
  · rintro rfl
    exact ⟨_, hbetween, hrounded⟩
  · -- There is one nearest multiple, so the one in between is the one that was computed.
    rintro ⟨between, hfirst, hsecond⟩
    rw [hbetween.unique hfirst] at hrounded ⊢
    exact hrounded.unique hsecond

/-- Rounding keeps the order of speeds. -/
theorem monotone_roundSpeed {multiple : ℝ} (hmultiple : 0 < multiple) (precision : UInt32) :
    Monotone fun speed => roundSpeed speed multiple precision := by
  intro speed faster h
  dsimp only
  rw [roundSpeed_eq, roundSpeed_eq]
  exact monotone_snap (decimalUnit_pos precision) (monotone_snap hmultiple h)

/-- A rounded speed stays as it is. -/
theorem roundSpeed_roundSpeed {multiple : ℝ} (hmultiple : 0 < multiple) (speed : ℝ)
    (precision : UInt32) : roundSpeed (roundSpeed speed multiple precision) multiple precision =
      roundSpeed speed multiple precision := by
  rw [roundSpeed_eq, roundSpeed_eq]
  exact snap_snap_settled hmultiple (decimalUnit_pos precision) speed

/-- Rounding moves a speed by half of either unit at most. -/
theorem abs_roundSpeed_sub_le {multiple : ℝ} (hmultiple : 0 < multiple) (speed : ℝ)
    (precision : UInt32) :
    |roundSpeed speed multiple precision - speed| ≤ multiple / 2 + decimalUnit precision / 2 := by
  have hfirst := abs_snap_sub_le hmultiple speed
  have hsecond := abs_snap_sub_le (decimalUnit_pos precision) (snap multiple speed)
  rw [roundSpeed_eq]
  calc |snap (decimalUnit precision) (snap multiple speed) - speed|
      ≤ |snap (decimalUnit precision) (snap multiple speed) - snap multiple speed| +
          |snap multiple speed - speed| := abs_sub_le _ _ _
    _ ≤ multiple / 2 + decimalUnit precision / 2 := by linarith

/-- A speed of three is rounded to none if the unit is ten or more. -/
theorem roundSpeed_three {precision : UInt32} (h : 2 ^ 31 ≤ precision.toNat) :
    roundSpeed (3 : ℝ) 1 precision = 0 := by
  have hten := ten_le_decimalUnit h
  have hwhole : snap 1 3 = 3 := by
    have hthree := snap_multiple one_pos 3
    rw [mul_one] at hthree
    exact_mod_cast hthree
  have hgone := snap_eq (decimalUnit_pos precision) (x := 3) 0 (by norm_num; linarith)
  rw [roundSpeed_eq, hwhole, hgone, Int.cast_zero, zero_mul]

/-- That is further away than decimals account for. -/
theorem far_from_three {precision : UInt32} (h : 2 ^ 31 ≤ precision.toNat) :
    1 / 2 + (10 ^ precision.toNat)⁻¹ / 2 < |roundSpeed (3 : ℝ) 1 precision - 3| := by
  have hsmall : ((10 : ℝ) ^ precision.toNat)⁻¹ ≤ 1 :=
    inv_le_one_of_one_le₀ (one_le_pow₀ (by norm_num))
  rw [roundSpeed_three h, zero_sub, abs_neg, abs_of_pos (by norm_num)]
  linarith

/-- Speeds that are rounded to the multiples of a positive number and then to
    decimals keep their order, and those that have been rounded stay as they are.
    Rounding goes to the nearest multiple and from there to the nearest number of
    so many decimals, so it moves a speed by half of either unit at most. The
    number of decimals is the one that is asked for if it is below `2 ^ 31`. If and
    only if it is, no speed is moved further than that, whatever the multiple. -/
theorem speed_rounding_projects (precision : UInt32) :
    (∀ multiple : ℝ, 0 < multiple →
      (Monotone fun speed => roundSpeed speed multiple precision) ∧
      ∀ speed,
        roundSpeed (roundSpeed speed multiple precision) multiple precision =
          roundSpeed speed multiple precision ∧
        |roundSpeed speed multiple precision - speed| ≤ multiple / 2 + decimalUnit precision / 2 ∧
        ∀ rounded, roundSpeed speed multiple precision = rounded ↔
          ∃ between, NearestMultiple multiple speed between ∧
            NearestMultiple (decimalUnit precision) between rounded) ∧
    (precision.toNat < 2 ^ 31 → decimalUnit precision = (10 ^ precision.toNat)⁻¹) ∧
    (precision.toNat < 2 ^ 31 ↔ ∀ multiple : ℝ, 0 < multiple → ∀ speed,
      |roundSpeed speed multiple precision - speed| ≤
        multiple / 2 + (10 ^ precision.toNat)⁻¹ / 2) := by
  refine ⟨fun multiple hmultiple => ⟨monotone_roundSpeed hmultiple precision, fun speed =>
    ⟨roundSpeed_roundSpeed hmultiple speed precision,
      abs_roundSpeed_sub_le hmultiple speed precision,
      roundSpeed_eq_iff hmultiple speed precision⟩⟩,
    decimalUnit_of_lt, fun hlt multiple hmultiple speed => ?_, fun hnear => ?_⟩
  · rw [← decimalUnit_of_lt hlt]
    exact abs_roundSpeed_sub_le hmultiple speed precision
  · -- From there on the precision is negative, and the speed three is moved too far.
    by_contra hge
    have hfar := hnear 1 one_pos 3
    exact absurd hfar (not_le.mpr (far_from_three (not_lt.mp hge)))

/-- The nearest twentieth to 1.03 has no single decimal, and lies halfway between
    two numbers that have. What it is rounded to stays. -/
theorem speed_rounding_projects_tie :
    roundSpeed (1.03 : ℝ) 0.05 1 = 1.1 ∧ roundSpeed (1.1 : ℝ) 0.05 1 = 1.1 ∧
      |(1.1 : ℝ) - 1.03| ≤ 0.05 / 2 + (10 ^ 1)⁻¹ / 2 := by
  have hmultiple : (0 : ℝ) < 0.05 := by norm_num
  have hlt : (1 : UInt32).toNat < 2 ^ 31 := by decide
  rcases speed_rounding_projects 1 with ⟨hall, hunit, hnear⟩
  have htenth : decimalUnit 1 = 1 / 10 := by
    rw [hunit hlt]
    change ((10 : ℝ) ^ 1)⁻¹ = 1 / 10
    norm_num
  have hfirst : roundSpeed (1.03 : ℝ) 0.05 1 = 1.1 := by
    -- The nearest twentieth is 21 twentieths, and ten times that is rounded away from zero.
    have htwentieth : snap 0.05 (1.03 : ℝ) = 1.05 := by
      have hsnap := snap_eq hmultiple (x := 1.03) 21 (by norm_num [abs_lt])
      norm_num at hsnap ⊢
      exact hsnap
    have hhalf : nearest (1.05 / (1 / 10) : ℝ) = 11 := by
      norm_num [nearest]
    rw [roundSpeed_eq, htwentieth, htenth, snap, hhalf]
    norm_num
  refine ⟨hfirst, ?_, ?_⟩
  · have hagain := ((hall 0.05 hmultiple).2 1.03).1
    rwa [hfirst] at hagain
  · have hbound := hnear.mp hlt 0.05 hmultiple 1.03
    rwa [hfirst] at hbound

/-- The largest number of decimals is read as one less than none, so that speeds
    are rounded to tens. -/
theorem speed_rounding_wraps :
    ¬ ∀ (precision : UInt32) (multiple : ℝ), 0 < multiple → ∀ speed,
      |roundSpeed speed multiple precision - speed| ≤
        multiple / 2 + (10 ^ precision.toNat)⁻¹ / 2 := by
  intro h
  have hlarge : 2 ^ 31 ≤ (4294967295 : UInt32).toNat := by decide
  exact absurd (h 4294967295 1 one_pos 3) (not_le.mpr (far_from_three hlarge))

end Retime
