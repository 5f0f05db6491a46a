import Mathlib.Analysis.SpecialFunctions.Log.Basic
import Mathlib.Tactic.Linarith
import Retime.Proofs.Order

/-!
# Exact Arithmetic

The real numbers as scalars.

The laws of the timing engine are laws of exact arithmetic. Doubles only come
near them, and by how much is a question of its own. So the laws are stated of
the same definitions at the real numbers, where nothing is rounded that the
engine does not round itself.

What the engine rounds, it rounds by `Scalar.round` and by quotients of powers
of ten. The lemmas here say what these are at the reals: the nearest whole
number, with halves going away from zero, and an ordinary power. A rounded
number is bounded by asking what was rounded, which `neg_le_nearest_iff` does
for the bounds below zero that lengths are compared with.

## Main definitions

* `Exact.withLog`: The real numbers with some function for the logarithm.
* `Exact.nearest`: The nearest whole number of a real one.

## Theorems

* `Exact.round_eq`: Rounding is going to the nearest whole number.
* `Exact.neg_le_nearest_iff`: When the nearest whole number is not far below
  zero.
* `Exact.nearest_mono`: Rounding keeps the order.
* `Exact.abs_nearest_sub_le`: Rounding moves a number by a half at most.
* `Exact.pow_eq`, `Exact.roundTo_eq`: Powers and decimals.
* `Exact.abs_roundTo_sub_le`: What rounding to decimals costs.
* `Exact.sum_eq`: The sum of a list.
-/

namespace Retime

noncomputable instance : Scalar ℝ where
  beq a b := @decide (a = b) (Classical.propDecidable _)
  decLT _ _ := Classical.propDecidable _
  decLE _ _ := Classical.propDecidable _
  isFinite _ := true
  floor x := ⌊x⌋
  ln := Real.log
  toInt lo hi x := max lo (min hi (if x < 0 then ⌈x⌉ else ⌊x⌋))

instance : OrderedScalar ℝ where
  trans hab hbc := le_trans (α := ℝ) hab hbc
  le_of_lt h := le_of_lt (α := ℝ) h
  not_lt _ _ := not_lt (α := ℝ)

namespace Exact

/-- The real numbers as scalars, with some function in place of the logarithm. -/
@[reducible]
noncomputable def withLog (ln : ℝ → ℝ) : Scalar ℝ :=
  { (inferInstance : Scalar ℝ) with ln }

theorem decimal_zero : (0.0 : ℝ) = 0 := by norm_num

theorem decimal_one : (1.0 : ℝ) = 1 := by norm_num

theorem beq_iff (x y : ℝ) : (x == y) = true ↔ x = y :=
  @decide_eq_true_iff (x = y) (Classical.propDecidable _)

theorem ofNat_eq (n : ℕ) : (Scalar.ofNat n : ℝ) = n := by
  have hrat : (OfScientific.ofScientific n false 0 : ℚ) = n := by
    change Rat.ofScientific n false 0 = n
    rw [Rat.ofScientific_false_def, pow_zero, mul_one]
  change (OfScientific.ofScientific n false 0 : ℝ) = n
  rw [← Rat.cast_ofScientific, hrat, Rat.cast_natCast]

/-- The whole part of a whole number is the number, within the bounds. -/
theorem toInt_intCast (lo hi k : ℤ) : Scalar.toInt lo hi (k : ℝ) = max lo (min hi k) := by
  change max lo (min hi (if (k : ℝ) < 0 then ⌈(k : ℝ)⌉ else ⌊(k : ℝ)⌋)) = _
  rw [Int.ceil_intCast, Int.floor_intCast, ite_self]

theorem isPositive_iff (x : ℝ) : Scalar.isPositive x = true ↔ 0 < x := by
  change (true && decide ((0.0 : ℝ) < x)) = true ↔ 0 < x
  rw [Bool.true_and, decide_eq_true_iff, decimal_zero]

theorem abs_eq (x : ℝ) : Scalar.abs x = |x| := by
  change (if x < (0.0 : ℝ) then -x else x) = |x|
  rw [decimal_zero]
  by_cases h : x < 0
  · rw [if_pos h, abs_of_neg h]
  · rw [if_neg h, abs_of_nonneg (not_lt.mp h)]

theorem greater_eq (x y : ℝ) : Scalar.greater x y = max x y := by
  unfold Scalar.greater
  by_cases h : x < y
  · rw [if_pos h, max_eq_right h.le]
  · rw [if_neg h, if_pos ((beq_iff x x).mpr rfl), max_eq_left (not_lt.mp h)]

theorem lesser_eq (x y : ℝ) : Scalar.lesser x y = min x y := by
  unfold Scalar.lesser
  by_cases h : y < x
  · rw [if_pos h, min_eq_right h.le]
  · rw [if_neg h, if_pos ((beq_iff x x).mpr rfl), min_eq_left (not_lt.mp h)]

/-- The nearest whole number, halves going away from zero. -/
noncomputable def nearest (x : ℝ) : ℤ :=
  if x < 0 then -⌊-x + 1 / 2⌋ else ⌊x + 1 / 2⌋

theorem roundUp_eq (x : ℝ) : Scalar.roundUp x = (⌊x + 1 / 2⌋ : ℤ) := by
  have hle : (⌊x⌋ : ℝ) ≤ x := Int.floor_le x
  have hlt : x < ⌊x⌋ + 1 := Int.lt_floor_add_one x
  have hhalf : (0.5 : ℝ) = 1 / 2 := by norm_num
  change (if x - (⌊x⌋ : ℝ) < (0.5 : ℝ) then (⌊x⌋ : ℝ) else (⌊x⌋ : ℝ) + (1.0 : ℝ)) = _
  rw [hhalf]
  -- Adding a half reaches the next whole number or it does not.
  by_cases h : x - (⌊x⌋ : ℝ) < 1 / 2
  · have hfloor : ⌊x + 1 / 2⌋ = ⌊x⌋ := by
      rw [Int.floor_eq_iff]
      exact ⟨by linarith, by linarith⟩
    rw [if_pos h, hfloor]
  · have hfloor : ⌊x + 1 / 2⌋ = ⌊x⌋ + 1 := by
      rw [Int.floor_eq_iff]
      push_cast
      exact ⟨by linarith, by linarith⟩
    rw [if_neg h, hfloor]
    push_cast
    norm_num

/-- Rounding is going to the nearest whole number. -/
theorem round_eq (x : ℝ) : Scalar.round x = (nearest x : ℝ) := by
  change (if x < (0.0 : ℝ) then -Scalar.roundUp (-x) else Scalar.roundUp x) = _
  rw [decimal_zero, roundUp_eq, roundUp_eq, nearest]
  by_cases h : x < 0
  · rw [if_pos h, if_pos h]
    push_cast
    rfl
  · rw [if_neg h, if_neg h]

/-- When the nearest whole number is not far below zero. -/
theorem neg_le_nearest_iff (n : ℕ) (x : ℝ) : -(n : ℤ) ≤ nearest x ↔ -(n + 1 / 2 : ℝ) < x := by
  have hn : (0 : ℝ) ≤ n := Nat.cast_nonneg n
  unfold nearest
  by_cases h : x < 0
  · rw [if_pos h, neg_le_neg_iff, ← Int.lt_add_one_iff, Int.floor_lt]
    push_cast
    constructor
    · intro hx
      linarith
    · intro hx
      linarith
  · rw [if_neg h]
    -- From zero on both sides hold anyway.
    have hfloor : (0 : ℤ) ≤ ⌊x + 1 / 2⌋ := Int.floor_nonneg.mpr (by linarith)
    exact ⟨fun _ => by linarith, fun _ => by omega⟩

/-- When the nearest whole number is not below one that is given. -/
theorem le_nearest {n : ℕ} {x : ℝ} (hx : 0 ≤ x) (h : n - 1 / 2 ≤ x) : (n : ℤ) ≤ nearest x := by
  unfold nearest
  rw [if_neg (not_lt.mpr hx), Int.le_floor]
  push_cast
  linarith

theorem one_le_nearest_iff (x : ℝ) : 1 ≤ nearest x ↔ 1 / 2 ≤ x := by
  unfold nearest
  by_cases h : x < 0
  · -- Below zero neither side holds.
    have hfloor : (0 : ℤ) ≤ ⌊-x + 1 / 2⌋ := Int.floor_nonneg.mpr (by linarith)
    rw [if_pos h]
    exact ⟨fun _ => by omega, fun _ => by linarith⟩
  · rw [if_neg h, Int.le_floor]
    push_cast
    constructor
    · intro hx
      linarith
    · intro hx
      linarith

theorem nearest_nonneg_iff (x : ℝ) : 0 ≤ nearest x ↔ -(1 / 2 : ℝ) < x := by
  simpa using neg_le_nearest_iff 0 x

/-- Rounding keeps the order. -/
theorem nearest_mono {x y : ℝ} (h : x ≤ y) : nearest x ≤ nearest y := by
  unfold nearest
  by_cases hx : x < 0
  · have hfloor : (0 : ℤ) ≤ ⌊-x + 1 / 2⌋ := Int.floor_nonneg.mpr (by linarith)
    rw [if_pos hx]
    by_cases hy : y < 0
    · rw [if_pos hy, neg_le_neg_iff]
      exact Int.floor_mono (by linarith)
    -- Zero is between the two.
    · have hfloor' : (0 : ℤ) ≤ ⌊y + 1 / 2⌋ := Int.floor_nonneg.mpr (by linarith)
      rw [if_neg hy]
      omega
  · rw [if_neg hx, if_neg (by linarith)]
    exact Int.floor_mono (by linarith)

/-- Rounding moves a number by a half at most. -/
theorem abs_nearest_sub_le (x : ℝ) : |(nearest x : ℝ) - x| ≤ 1 / 2 := by
  unfold nearest
  by_cases h : x < 0
  · have hle := Int.floor_le (-x + 1 / 2)
    have hlt := Int.lt_floor_add_one (-x + 1 / 2)
    rw [if_pos h, abs_le]
    push_cast
    exact ⟨by linarith, by linarith⟩
  · have hle := Int.floor_le (x + 1 / 2)
    have hlt := Int.lt_floor_add_one (x + 1 / 2)
    rw [if_neg h, abs_le]
    exact ⟨by linarith, by linarith⟩

/-- A number less than a half away from a whole one is rounded to it. -/
theorem nearest_eq {x : ℝ} {n : ℤ} (h : |x - n| < 1 / 2) : nearest x = n := by
  rcases abs_lt.mp h with ⟨hlo, hhi⟩
  unfold nearest
  by_cases hx : x < 0
  · rw [if_pos hx]
    have hfloor : ⌊-x + 1 / 2⌋ = -n := by
      rw [Int.floor_eq_iff]
      push_cast
      exact ⟨by linarith, by linarith⟩
    rw [hfloor, neg_neg]
  · rw [if_neg hx, Int.floor_eq_iff]
    exact ⟨by linarith, by linarith⟩

theorem nearest_natCast (n : ℕ) : nearest n = n := by
  refine nearest_eq ?_
  rw [Int.cast_natCast, sub_self, abs_zero]
  norm_num

/-- A positive number below a half is rounded away. -/
theorem nearest_eq_zero {x : ℝ} (hpos : 0 < x) (hlt : x < 1 / 2) : nearest x = 0 := by
  refine nearest_eq ?_
  rw [Int.cast_zero, sub_zero, abs_of_pos hpos]
  exact hlt

theorem powFrom_eq (r a : ℝ) (n : ℕ) : Scalar.powFrom r a n = r * a ^ n := by
  induction n using Nat.strong_induction_on generalizing r a with
  | _ n ih =>
    rw [Scalar.powFrom]
    by_cases h : n < 2
    · rw [dif_pos h]
      have hcases : n = 0 ∨ n = 1 := by omega
      rcases hcases with rfl | rfl
      · simp
      · simp
    · rw [dif_neg h, ih (n / 2) (by omega)]
      have hsq : (a * a) ^ (n / 2) = a ^ (2 * (n / 2)) := by rw [pow_mul, sq]
      -- Squaring halves the exponent, and what is left over is one factor.
      by_cases hodd : n % 2 = 1
      · have hn : n = 2 * (n / 2) + 1 := by omega
        rw [if_pos hodd, hsq]
        conv_rhs => rw [hn, pow_succ]
        ring
      · have hn : n = 2 * (n / 2) := by omega
        rw [if_neg hodd, hsq, ← hn]

/-- Powers are ordinary powers. -/
theorem pow_eq (a : ℝ) (n : ℤ) : Scalar.pow a n = a ^ n := by
  change (if n < 0 then (1.0 : ℝ) / Scalar.powFrom 1.0 a n.natAbs
    else Scalar.powFrom 1.0 a n.natAbs) = a ^ n
  rw [powFrom_eq, decimal_one, one_mul]
  -- A negative power is one over the power without its sign.
  by_cases h : n < 0
  · have hn : n = -(n.natAbs : ℤ) := by omega
    rw [if_pos h, one_div]
    conv_rhs => rw [hn, zpow_neg, zpow_natCast]
  · have hn : n = (n.natAbs : ℤ) := by omega
    rw [if_neg h]
    conv_rhs => rw [hn, zpow_natCast]

theorem roundTo_eq (places : ℕ) (x : ℝ) :
    Scalar.roundTo places x = (nearest (x * 10 ^ places) : ℝ) / 10 ^ places := by
  have hscale : Scalar.pow (10.0 : ℝ) (places : ℤ) = 10 ^ places := by
    rw [pow_eq, zpow_natCast]
    norm_num
  change Scalar.round (x * Scalar.pow 10.0 (places : ℤ)) / Scalar.pow 10.0 (places : ℤ) = _
  rw [hscale, round_eq]

theorem powFrom_withLog (ln : ℝ → ℝ) (r a : ℝ) (n : ℕ) :
    @Scalar.powFrom ℝ (withLog ln) r a n = Scalar.powFrom r a n := by
  induction n using Nat.strong_induction_on generalizing r a with
  | _ n ih =>
    unfold Scalar.powFrom
    by_cases h : n < 2
    · rw [dif_pos h, dif_pos h]
    · rw [dif_neg h, dif_neg h]
      exact ih (n / 2) (by omega) _ _

/-- Rounding to decimals is no matter of the logarithm. -/
theorem roundTo_withLog (ln : ℝ → ℝ) (places : ℕ) (x : ℝ) :
    @Scalar.roundTo ℝ (withLog ln) places x = Scalar.roundTo places x := by
  -- Only the scale is computed by a recursion, in which no logarithm occurs.
  have hscale : @Scalar.pow ℝ (withLog ln) 10.0 places = Scalar.pow 10.0 places := by
    unfold Scalar.pow
    rw [powFrom_withLog]
  unfold Scalar.roundTo
  rw [hscale]
  rfl

/-- A whole number has no decimals to round. -/
theorem roundTo_natCast (places n : ℕ) : Scalar.roundTo places (n : ℝ) = n := by
  have hscale : (0 : ℝ) < 10 ^ places := by positivity
  have hnearest : nearest ((n : ℝ) * 10 ^ places) = (n * 10 ^ places : ℤ) := by
    refine nearest_eq ?_
    push_cast
    rw [sub_self, abs_zero]
    norm_num
  rw [roundTo_eq, hnearest]
  push_cast
  exact mul_div_cancel_right₀ _ hscale.ne'

/-- Rounding to decimals moves a number by half a unit of the last at most. -/
theorem abs_roundTo_sub_le (places : ℕ) (x : ℝ) :
    |Scalar.roundTo places x - x| ≤ 1 / 2 / 10 ^ places := by
  have hscale : (0 : ℝ) < 10 ^ places := by positivity
  have hx : x = x * 10 ^ places / 10 ^ places := (mul_div_cancel_right₀ x hscale.ne').symm
  calc |Scalar.roundTo places x - x|
      = |((nearest (x * 10 ^ places) : ℝ) - x * 10 ^ places) / 10 ^ places| := by
        rw [roundTo_eq, sub_div, ← hx]
    _ = |(nearest (x * 10 ^ places) : ℝ) - x * 10 ^ places| / 10 ^ places := by
        rw [abs_div, abs_of_pos hscale]
    _ ≤ 1 / 2 / 10 ^ places := by
        exact div_le_div_of_nonneg_right (abs_nearest_sub_le _) hscale.le

/-- The sum of a list is its sum. -/
theorem sum_eq (xs : List ℝ) : Scalar.sum xs = xs.sum := by
  unfold Scalar.sum
  rw [List.sum_eq_foldl]
  norm_num

end Exact

end Retime
