import Mathlib.Data.Real.Basic
import Retime.Proofs.DoubleSize
import Retime.Proofs.Exact

/-!
# Rounding to the Nearest

What rounding a mantissa gives: a double that none is nearer than.

The parts of a double stand for a real number, a mantissa times a power of two.
The numbers that can be had with mantissas of 53 bits and with no exponent below
the smallest are a grid, which gets coarser away from zero. An operation on
doubles computes the first bits of its exact result, and keeps of the rest only
whether it is a half, less, or more. This is enough. Cutting the mantissa to its
length leaves a mantissa of the same number with the same kind of knowledge, and
the whole number that is taken in the end is off by a half at most. The grid has
no points in between, except below the power of two that the number is above.

How large the exponent gets is of no concern here. A double has room for only so
much, and what is larger becomes infinite when it is packed.

## Main definitions

* `Double.value`: The number that the parts of a double stand for.
* `Double.OnGrid`: The numbers that doubles are rounded to.
* `Double.Nearest`: A point of the grid that none is nearer than.
* `Double.Canonical`: Parts that can be packed without a loss.
* `Double.Describes`: A mantissa whose residual bits are those of a number.

## Theorems

* `Double.Nearest.le_of_le`, `Double.Nearest.le_of_ge`: Rounding does not pass a
  point of the grid.
* `Double.Describes.shiftRight`: Cutting a mantissa keeps what is known.
* `Double.nearest_round`: Rounding goes to the nearest point.
-/

namespace Retime

namespace Double

open Float.Model Float.Model.UnpackedFloat

/-! ### The grid -/

/-- The numbers that doubles are rounded to. The exponent has no largest value. -/
inductive OnGrid (a : ℝ) : Prop
  | intro (k q : ℤ) : |k| ≤ 2 ^ 53 → -1074 ≤ q → a = k * 2 ^ q → OnGrid a

theorem OnGrid.neg {a : ℝ} (h : OnGrid a) : OnGrid (-a) := by
  rcases h with ⟨k, q, hk, hq, rfl⟩
  refine ⟨-k, q, ?_, hq, ?_⟩
  · rwa [abs_neg]
  · push_cast
    ring

theorem onGrid_zero : OnGrid 0 :=
  ⟨0, 0, by decide, by decide, by simp⟩

/-- Whole numbers of up to 53 bits lie on the grid. -/
theorem onGrid_intCast {k : ℤ} (h : |k| ≤ 2 ^ 53) : OnGrid k :=
  ⟨k, 0, h, by decide, by simp⟩

/-- All points of the grid are multiples of the smallest one above zero. -/
theorem OnGrid.exists_multiple (h : OnGrid a) : ∃ n : ℤ, a = n * 2 ^ (-1074 : ℤ) := by
  rcases h with ⟨k, q, -, hq, rfl⟩
  have hexp : q = ((q + 1074).toNat : ℤ) + -1074 := by omega
  refine ⟨k * 2 ^ (q + 1074).toNat, ?_⟩
  conv_lhs => rw [hexp, zpow_add₀ two_ne_zero, zpow_natCast]
  push_cast
  ring

/-- A point of the grid that none is nearer than. -/
structure Nearest (x w : ℝ) : Prop where
  onGrid : OnGrid w
  least : ∀ a, OnGrid a → |w - x| ≤ |a - x|

namespace Nearest

variable {x w a : ℝ}

theorem neg (h : Nearest x w) : Nearest (-x) (-w) := by
  refine ⟨h.onGrid.neg, fun a ha => ?_⟩
  have hleast := h.least (-a) ha.neg
  rw [← abs_neg, ← abs_neg (a - -x)]
  convert hleast using 2
  · ring
  · ring

/-- Rounding does not pass a point of the grid from above. -/
theorem le_of_le (h : Nearest x w) (ha : OnGrid a) (hax : a ≤ x) : a ≤ w := by
  by_contra hwa
  have hleast := h.least a ha
  rw [abs_of_nonpos (by linarith), abs_of_nonpos (by linarith)] at hleast
  linarith

/-- Nor from below. -/
theorem le_of_ge (h : Nearest x w) (ha : OnGrid a) (hxa : x ≤ a) : w ≤ a := by
  by_contra haw
  have hleast := h.least a ha
  rw [abs_of_nonneg (by linarith), abs_of_nonneg (by linarith)] at hleast
  linarith

/-- Rounding keeps the order. -/
theorem le_of_lt {y v : ℝ} (hw : Nearest x w) (hv : Nearest y v) (h : x < y) : w ≤ v := by
  by_contra hvw
  have hx := sq_le_sq.mpr (hw.least v hv.onGrid)
  have hy := sq_le_sq.mpr (hv.least w hw.onGrid)
  -- Both numbers would have to lie on the wrong side of the middle.
  nlinarith

/-- What lies on the grid is rounded to itself. -/
theorem of_onGrid (hx : OnGrid x) : Nearest x x := by
  refine ⟨hx, fun a _ => ?_⟩
  rw [sub_self, abs_zero]
  exact abs_nonneg _

end Nearest

/-! ### Values -/

/-- A number with a sign. -/
def signed (s : Sign) (x : ℝ) : ℝ :=
  match s with
  | .positive => x
  | .negative => -x

theorem Nearest.signed {x w : ℝ} (h : Nearest x w) (s : Sign) :
    Nearest (signed s x) (signed s w) := by
  cases s with
  | positive => exact h
  | negative => exact h.neg

theorem apply_cast (s : Sign) (m : ℤ) : ((s.apply m : ℤ) : ℝ) = signed s m := by
  cases s with
  | positive => rfl
  | negative => exact Int.cast_neg m

theorem signed_zero (s : Sign) : signed s 0 = 0 := by
  cases s with
  | positive => rfl
  | negative => exact neg_zero

theorem signed_mul (s : Sign) (x y : ℝ) : signed s x * y = signed s (x * y) := by
  cases s with
  | positive => rfl
  | negative => exact neg_mul x y

/-- The number that the parts of a double stand for. What is not a number counts
    as zero, and is never looked at. -/
noncomputable def value : UnpackedFloat → ℝ
  | .finite s m e _ => signed s (m * ((2 : ℕ) : ℝ) ^ e)
  | _ => 0

theorem value_finite (s : Sign) (m : ℕ) (e : ℤ) (h : 0 < m) :
    value (.finite s m e h) = signed s (m * 2 ^ e) := rfl

/-- Parts that can be packed without a loss, as far as the mantissa goes. -/
inductive Canonical : UnpackedFloat → Prop
  | zero {s : Sign} : Canonical (.zero s)
  | finite {s : Sign} {m : Nat} {e : Int} {h : 0 < m} :
      m < 2 ^ 53 → -1074 ≤ e → e = -1074 ∨ 2 ^ 52 ≤ m → Canonical (.finite s m e h)

/-! ### Residual bits -/

/-- A mantissa whose residual bits are those of a number. -/
inductive Describes (x : ExtendedMantissa) (y : ℝ) : Prop
  | intro (f : ℝ) : y = x.mantissa + (if x.roundBit then 1 / 2 else 0) + f → 0 ≤ f →
      f < 1 / 2 → (x.stickyBit = true ↔ 0 < f) → Describes x y

theorem describes_exact (m : Nat) :
    Describes (ExtendedMantissa.ofMantissaAndAccuracy m .exact) m := by
  refine ⟨0, ?_, le_rfl, by norm_num, ?_⟩
  · simp [ExtendedMantissa.ofMantissaAndAccuracy]
  · simp [ExtendedMantissa.ofMantissaAndAccuracy]

/-- The accuracy of a quotient is that of the fraction it leaves. -/
theorem describes_quotient (n : Nat) {d : Nat} (hd : 0 < d) :
    Describes (ExtendedMantissa.ofMantissaAndAccuracy (n / d) (accuracyOfFraction (n % d) d))
      (n / d : ℝ) := by
  have hpos : (0 : ℝ) < d := Nat.cast_pos.mpr hd
  have hrest : ((n % d : ℕ) : ℝ) / d < 1 := by
    rw [div_lt_one hpos]
    exact Nat.cast_lt.mpr (Nat.mod_lt n hd)
  have hsplit : (n / d : ℝ) = ((n / d : ℕ) : ℝ) + ((n % d : ℕ) : ℝ) / d := by
    have hn : (n : ℝ) = d * ((n / d : ℕ) : ℝ) + ((n % d : ℕ) : ℝ) := by
      exact_mod_cast (Nat.div_add_mod n d).symm
    conv_lhs => rw [hn]
    field_simp
  -- Twice the rest is compared with the divisor, so the fraction is with a half.
  have hhalf : ∀ {r : ℝ}, r / d < 1 / 2 ↔ 2 * r < d := by
    intro r
    rw [div_lt_div_iff₀ hpos two_pos, one_mul, mul_comm]
  rw [hsplit]
  unfold accuracyOfFraction
  by_cases hzero : n % d = 0
  · rw [if_pos hzero]
    refine ⟨0, ?_, le_rfl, by norm_num, ?_⟩
    · simp [ExtendedMantissa.ofMantissaAndAccuracy, hzero]
    · simp [ExtendedMantissa.ofMantissaAndAccuracy]
  · have hr : (0 : ℝ) < ((n % d : ℕ) : ℝ) / d :=
      div_pos (Nat.cast_pos.mpr (Nat.pos_of_ne_zero hzero)) hpos
    rw [if_neg hzero]
    cases hcompare : compare (2 * (n % d)) d with
    | lt =>
        have hlt : (2 * ((n % d : ℕ) : ℝ)) < d := by exact_mod_cast Nat.compare_eq_lt.mp hcompare
        refine ⟨_, ?_, hr.le, hhalf.mpr hlt, ?_⟩
        · simp [ExtendedMantissa.ofMantissaAndAccuracy]
        · simp [ExtendedMantissa.ofMantissaAndAccuracy, hr]
    | eq =>
        have heq : (2 * ((n % d : ℕ) : ℝ)) = d := by exact_mod_cast Nat.compare_eq_eq.mp hcompare
        have hfraction : ((n % d : ℕ) : ℝ) / d = 1 / 2 := by
          rw [div_eq_div_iff hpos.ne' two_ne_zero]
          linarith
        refine ⟨0, ?_, le_rfl, by norm_num, ?_⟩
        · simp [ExtendedMantissa.ofMantissaAndAccuracy, hfraction]
        · simp [ExtendedMantissa.ofMantissaAndAccuracy]
    | gt =>
        have hgt : (d : ℝ) < 2 * ((n % d : ℕ) : ℝ) := by
          exact_mod_cast Nat.compare_eq_gt.mp hcompare
        have hmore : 1 / 2 < ((n % d : ℕ) : ℝ) / d := by
          rw [div_lt_div_iff₀ two_pos hpos]
          linarith
        refine ⟨((n % d : ℕ) : ℝ) / d - 1 / 2, ?_, by linarith, by linarith, ?_⟩
        · simp [ExtendedMantissa.ofMantissaAndAccuracy]
        · simp only [ExtendedMantissa.ofMantissaAndAccuracy, true_iff]
          linarith

namespace Describes

variable {x : ExtendedMantissa} {y : ℝ}

theorem mantissa_le (h : Describes x y) : (x.mantissa : ℝ) ≤ y := by
  rcases h with ⟨f, rfl, hf, -, -⟩
  split
  · linarith
  · linarith

/-- Halving a number moves the last bit of the mantissa into the residual ones. -/
theorem shiftRightOne (h : Describes x y) : Describes x.shiftRightOne (y / 2) := by
  rcases h with ⟨f, rfl, hf, hlt, hsticky⟩
  have hmod : (x.mantissa : ℝ) = 2 * ((x.mantissa / 2 : ℕ) : ℝ) + ((x.mantissa % 2 : ℕ) : ℝ) := by
    exact_mod_cast (Nat.div_add_mod x.mantissa 2).symm
  have hbit : ((x.mantissa % 2 : ℕ) : ℝ) / 2 =
      if (x.mantissa % 2 != 0) = true then (1 / 2 : ℝ) else 0 := by
    rcases Nat.mod_two_eq_zero_or_one x.mantissa with h | h
    · simp [h]
    · simp [h]
  -- What was the round bit is a quarter now, and sticks.
  refine ⟨(if x.roundBit then 1 / 2 else 0) / 2 + f / 2, ?_, ?_, ?_, ?_⟩
  · change _ = ((x.mantissa / 2 : ℕ) : ℝ) +
      (if (x.mantissa % 2 != 0) = true then (1 / 2 : ℝ) else 0) + _
    rw [← hbit]
    linarith
  · split
    · linarith
    · linarith
  · split
    · linarith
    · linarith
  · change (x.roundBit || x.stickyBit) = true ↔ _
    cases x.roundBit with
    | true => simp only [Bool.true_or, if_true, true_iff]; linarith
    | false =>
        rw [Bool.false_or, hsticky, if_neg Bool.false_ne_true]
        constructor
        · intro h
          linarith
        · intro h
          linarith

theorem shiftRight (h : Describes x y) (n : Nat) : Describes (x >>> n) (y / 2 ^ n) := by
  induction n with
  | zero =>
      rw [pow_zero, div_one]
      exact h
  | succ n ih =>
      have hone := ih.shiftRightOne
      rwa [div_div, ← pow_succ] at hone

/-- Below a half the mantissa is taken as it is. -/
theorem rounded_below (m : Nat) (sticky : Bool) :
    (ExtendedMantissa.mk m false sticky).roundedMantissa = m := by
  cases sticky with
  | true | false => rfl

theorem rounded_above (m : Nat) : (ExtendedMantissa.mk m true true).roundedMantissa = m + 1 := rfl

/-- Halfway the even one of the two is taken. -/
theorem rounded_halfway (m : Nat) :
    (ExtendedMantissa.mk m true false).roundedMantissa = m + m % 2 := rfl

/-- The whole number that is taken is off by a half at most. -/
theorem abs_rounded_sub_le (h : Describes x y) : |(x.roundedMantissa : ℝ) - y| ≤ 1 / 2 := by
  rcases h with ⟨f, rfl, hf, hlt, hsticky⟩
  obtain ⟨m, round, sticky⟩ := x
  rw [abs_le]
  cases round with
  | false =>
      rw [rounded_below, if_neg Bool.false_ne_true]
      exact ⟨by linarith, by linarith⟩
  | true =>
      cases sticky with
      | true =>
          rw [rounded_above, if_pos rfl]
          push_cast
          exact ⟨by linarith, by linarith⟩
      -- Halfway, both neighbours are as near.
      | false =>
          have hzero : f = 0 := le_antisymm (not_lt.mp fun h => nomatch hsticky.mpr h) hf
          have hbit : ((m % 2 : ℕ) : ℝ) ≤ 1 := by
            exact_mod_cast Nat.lt_succ_iff.mp (Nat.mod_lt m two_pos)
          have hnonneg : (0 : ℝ) ≤ ((m % 2 : ℕ) : ℝ) := Nat.cast_nonneg _
          rw [rounded_halfway, if_pos rfl, hzero]
          push_cast
          exact ⟨by linarith, by linarith⟩

end Describes

/-! ### Rounding -/

section Rounding

variable {m : Nat} {e : Int}

/-- The exponent that a mantissa is brought to. -/
def target (m : Nat) (e : Int) : Int :=
  max (totalExponent m e - 53) (-1074)

/-- Cutting a mantissa to its length. -/
theorem shift_eq (a : Accuracy) (he : e ≤ target m e) :
    shiftToTargetExponent Format.binary64 m e a =
      (ExtendedMantissa.ofMantissaAndAccuracy m a >>> (target m e - e).toNat, target m e) := by
  have hsum : e + ((target m e - e).toNat : Int) = target m e := by omega
  exact Prod.ext rfl hsum

theorem cut_lt (m : Nat) (e : Int) : m / 2 ^ (target m e - e).toNat < 2 ^ 53 := by
  rw [Nat.div_lt_iff_lt_mul (Nat.two_pow_pos _), ← Nat.pow_add]
  refine Nat.lt_of_lt_of_le Nat.lt_log2_self (Nat.pow_le_pow_right two_pos ?_)
  unfold target totalExponent
  omega

/-- A mantissa keeps all of its bits, unless the exponent is the smallest. -/
theorem le_cut (he : e ≤ target m e) (hsmall : target m e ≠ -1074) :
    2 ^ 52 ≤ m / 2 ^ (target m e - e).toNat := by
  have htarget : target m e = m.log2 + 1 + e - 53 := by
    unfold target totalExponent at hsmall ⊢
    omega
  have hlog : m.log2 = 52 + (target m e - e).toNat := by omega
  have hm : m ≠ 0 := by
    rintro rfl
    rw [Nat.log2_zero] at hlog
    omega
  rw [Nat.le_div_iff_mul_le (Nat.two_pow_pos _), ← Nat.pow_add, ← hlog]
  exact Nat.log2_self_le hm

/-- After rounding there is at most one bit too many, and that is alone. -/
theorem shift_again {n : Nat} (hn : n ≤ 2 ^ 53) (he : -1074 ≤ e) :
    let r := shiftToTargetExponent Format.binary64 n e .exact
    n < 2 ^ 53 ∧ r.1.mantissa = n ∧ r.2 = e ∨
      n = 2 ^ 53 ∧ r.1.mantissa = 2 ^ 52 ∧ r.2 = e + 1 := by
  -- Only the power of two itself has a bit too many, and its last bit is zero.
  rcases Nat.lt_or_eq_of_le hn with hlt | rfl
  · have hlog : n.log2 ≤ 52 := by
      rcases Nat.eq_zero_or_pos n with rfl | hpos
      · decide
      · exact Nat.lt_succ_iff.mp ((Nat.log2_lt (Nat.ne_of_gt hpos)).mpr hlt)
    have hamount : (Format.binary64.targetExponent (totalExponent n e) - e).toNat = 0 := by
      rw [targetExponent_eq]
      unfold totalExponent
      omega
    refine Or.inl ⟨hlt, ?_, ?_⟩
    · simp only [shiftToTargetExponent, shiftToExponent, mantissa_shiftRight, mantissa_ofAccuracy,
        hamount, pow_zero, Nat.div_one]
    · simp only [shiftToTargetExponent, shiftToExponent, hamount, Nat.cast_zero, add_zero]
  · have hamount : (Format.binary64.targetExponent (totalExponent (2 ^ 53) e) - e).toNat = 1 := by
      rw [targetExponent_eq]
      unfold totalExponent
      rw [Nat.log2_two_pow]
      omega
    refine Or.inr ⟨rfl, ?_, ?_⟩
    · simp only [shiftToTargetExponent, shiftToExponent, mantissa_shiftRight, mantissa_ofAccuracy,
        hamount, pow_one]
      norm_num
    · simp only [shiftToTargetExponent, shiftToExponent, hamount, Nat.cast_one]

/-- What comes of rounding has the rounded mantissa and the exponent that it was
    brought to, as a number. -/
theorem value_round (s : Sign) (a : Accuracy) (he : e ≤ target m e) :
    let n := (ExtendedMantissa.ofMantissaAndAccuracy m a >>> (target m e - e).toNat).roundedMantissa
    let u := roundWithAccuracy Format.binary64 s m e a
    Canonical u ∧ value u = signed s (n * 2 ^ target m e) := by
  intro n u
  have hlow : -1074 ≤ target m e := le_max_right _ _
  have hmantissa :
      (ExtendedMantissa.ofMantissaAndAccuracy m a >>> (target m e - e).toNat).mantissa =
        m / 2 ^ (target m e - e).toNat := by
    rw [mantissa_shiftRight, mantissa_ofAccuracy]
  have hn : n ≤ 2 ^ 53 := by
    have hle : n ≤ _ + 1 := roundedMantissa_le _
    have hcut := cut_lt m e
    omega
  have hlong : target m e = -1074 ∨ 2 ^ 52 ≤ n := by
    by_cases hsmall : target m e = -1074
    · exact Or.inl hsmall
    · have hle : _ ≤ n := le_roundedMantissa _
      have hcut := le_cut he hsmall
      exact Or.inr (by omega)
  have hu : u = if h : (shiftToTargetExponent Format.binary64 n (target m e) .exact).1.mantissa = 0
      then .zero s
      else .finite s _ (shiftToTargetExponent Format.binary64 n (target m e) .exact).2
        (Nat.pos_of_ne_zero h) := by
    change roundWithAccuracy Format.binary64 s m e a = _
    unfold roundWithAccuracy
    rw [shift_eq a he]
  have hagain := shift_again hn hlow
  rw [hu]
  generalize shiftToTargetExponent Format.binary64 n (target m e) .exact = r at hagain ⊢
  obtain ⟨x, t⟩ := r
  dsimp only at hagain ⊢
  rcases hagain with ⟨hlt, hx, rfl⟩ | ⟨hfull, hx, rfl⟩
  · by_cases hzero : x.mantissa = 0
    · rw [dif_pos hzero, ← hx, hzero, Nat.cast_zero, zero_mul]
      exact ⟨.zero, (signed_zero s).symm⟩
    · rw [dif_neg hzero]
      refine ⟨.finite (by omega) hlow (by omega), ?_⟩
      rw [value_finite, hx]
  -- A mantissa that got a bit too long is a power of two, and loses nothing.
  · have hne : x.mantissa ≠ 0 := by omega
    rw [dif_neg hne]
    refine ⟨.finite (by omega) (by omega) (Or.inr (by omega)), ?_⟩
    rw [value_finite, hx, hfull, zpow_add_one₀ two_ne_zero]
    congr 1
    push_cast
    ring

/-- Different whole numbers are one apart at least. -/
theorem one_le_abs_sub {k n : ℤ} (h : k ≠ n) : 1 ≤ |(k : ℝ) - n| := by
  exact_mod_cast Int.one_le_abs (sub_ne_zero.mpr h)

/-- How far a number is from a quotient, times the divisor. -/
theorem abs_sub_div_mul {f : ℝ} (hf : 0 < f) (a b : ℝ) : |a - b / f| * f = |a * f - b| := by
  rw [← abs_of_pos hf, ← abs_mul, abs_of_pos hf, sub_mul, div_mul_cancel₀ _ hf.ne']

/-- No whole number is nearer than one that is a half away at most. -/
theorem abs_sub_le_of_half {y : ℝ} {n : ℤ} (h : |(n : ℝ) - y| ≤ 1 / 2) (k : ℤ) :
    |(n : ℝ) - y| ≤ |(k : ℝ) - y| := by
  by_cases heq : k = n
  · rw [heq]
  · have hone := one_le_abs_sub heq
    have htriangle := abs_sub_le (k : ℝ) y n
    rw [abs_sub_comm y] at htriangle
    linarith

/-- A number of steps over a smaller exponent. -/
theorem intCast_mul_zpow (k : ℤ) {q t : ℤ} (h : t ≤ q) :
    (k : ℝ) * 2 ^ q = ((k * 2 ^ (q - t).toNat : ℤ) : ℝ) * 2 ^ t := by
  have hexp : q = ((q - t).toNat : ℤ) + t := by omega
  conv_lhs => rw [hexp, zpow_add₀ two_ne_zero, zpow_natCast, ← mul_assoc]
  push_cast
  rfl

/-- The part of the grid with a smaller exponent ends at a power of two. -/
theorem intCast_mul_zpow_le {k q t : ℤ} (hk : |k| ≤ 2 ^ 53) (h : q < t) :
    (k : ℝ) * 2 ^ q ≤ ((2 ^ 52 : ℤ) : ℝ) * 2 ^ t := by
  have hk' : (k : ℝ) ≤ 2 ^ 53 := by exact_mod_cast (le_abs_self k).trans hk
  have hexp : (2 : ℝ) ^ q ≤ 2 ^ (t - 1) := zpow_le_zpow_right₀ one_le_two (by omega)
  calc (k : ℝ) * 2 ^ q ≤ 2 ^ 53 * 2 ^ q := mul_le_mul_of_nonneg_right hk' (zpow_pos two_pos q).le
    _ ≤ 2 ^ 53 * 2 ^ (t - 1) := mul_le_mul_of_nonneg_left hexp (by positivity)
    _ = ((2 ^ 52 : ℤ) : ℝ) * 2 ^ t := by
        rw [zpow_sub_one₀ two_ne_zero]
        push_cast
        ring

/-- A whole number of steps that is off by half a step at most is nearest, if the
    steps are those of the grid. -/
theorem nearest_of_half {y : ℝ} {n : Nat} {t : Int} (hn : n ≤ 2 ^ 53) (ht : -1074 ≤ t)
    (hhalf : |(n : ℝ) - y| ≤ 1 / 2) (hlong : t = -1074 ∨ 2 ^ 52 ≤ y) :
    Nearest (y * 2 ^ t) (n * 2 ^ t) := by
  have hstep : (0 : ℝ) < 2 ^ t := zpow_pos two_pos t
  -- Between whole numbers of steps this is rounding to a whole number.
  have hwhole : ∀ k : ℤ, |(n : ℝ) * 2 ^ t - y * 2 ^ t| ≤ |(k : ℝ) * 2 ^ t - y * 2 ^ t| := by
    intro k
    rw [← sub_mul, ← sub_mul, abs_mul, abs_mul]
    exact mul_le_mul_of_nonneg_right (abs_sub_le_of_half (n := n) hhalf k) (abs_nonneg _)
  refine ⟨⟨n, t, ?_, ht, rfl⟩, ?_⟩
  · rw [abs_of_nonneg (Nat.cast_nonneg n)]
    exact_mod_cast hn
  rintro a ⟨k, q, hk, hq, rfl⟩
  by_cases hqt : t ≤ q
  · rw [intCast_mul_zpow k hqt]
    exact hwhole _
  -- Where the grid is finer it ends below the number.
  · have hfull := hlong.resolve_left (by omega)
    have hpower := intCast_mul_zpow_le hk (not_le.mp hqt)
    have hbelow : ((2 ^ 52 : ℤ) : ℝ) * 2 ^ t ≤ y * 2 ^ t := by
      refine mul_le_mul_of_nonneg_right ?_ hstep.le
      exact_mod_cast hfull
    refine (hwhole (2 ^ 52)).trans ?_
    rw [abs_of_nonpos (by linarith), abs_of_nonpos (by linarith)]
    linarith

/-- Cutting a mantissa takes powers of two out of it. -/
theorem cut_scaled (y : ℝ) (he : e ≤ target m e) :
    y * 2 ^ e = y / 2 ^ (target m e - e).toNat * 2 ^ target m e := by
  have hexp : target m e = ((target m e - e).toNat : ℤ) + e := by omega
  conv_rhs => rw [hexp, zpow_add₀ two_ne_zero, zpow_natCast]
  have hsimp : ((((target m e - e).toNat : ℤ) + e - e).toNat) = (target m e - e).toNat := by omega
  rw [hsimp]
  field_simp

theorem rounded_cut_le (a : Accuracy) :
    (ExtendedMantissa.ofMantissaAndAccuracy m a >>> (target m e - e).toNat).roundedMantissa ≤
      2 ^ 53 := by
  have hle := roundedMantissa_le
    (ExtendedMantissa.ofMantissaAndAccuracy m a >>> (target m e - e).toNat)
  have hlt := cut_lt m e
  rw [mantissa_shiftRight, mantissa_ofAccuracy] at hle
  omega

/-- What a cut mantissa describes has all bits, unless the exponent is the smallest. -/
theorem Describes.cut_long {a : Accuracy} {y : ℝ}
    (h : Describes (ExtendedMantissa.ofMantissaAndAccuracy m a >>> (target m e - e).toNat) y)
    (he : e ≤ target m e) : target m e = -1074 ∨ 2 ^ 52 ≤ y := by
  by_cases hsmall : target m e = -1074
  · exact Or.inl hsmall
  · have hle := le_cut he hsmall
    have hmantissa := h.mantissa_le
    rw [mantissa_shiftRight, mantissa_ofAccuracy] at hmantissa
    refine Or.inr (le_trans ?_ hmantissa)
    exact_mod_cast hle

/-- Rounding goes to the nearest point of the grid. -/
theorem nearest_round (s : Sign) {a : Accuracy} {y : ℝ}
    (hy : Describes (ExtendedMantissa.ofMantissaAndAccuracy m a) y) (he : e ≤ target m e) :
    Canonical (roundWithAccuracy Format.binary64 s m e a) ∧
      Nearest (signed s (y * 2 ^ e)) (value (roundWithAccuracy Format.binary64 s m e a)) := by
  have hcut := hy.shiftRight (target m e - e).toNat
  rcases value_round s a he with ⟨hcanonical, hvalue⟩
  rw [hvalue, cut_scaled y he]
  exact ⟨hcanonical, (nearest_of_half (rounded_cut_le a) (le_max_right _ _)
    hcut.abs_rounded_sub_le (hcut.cut_long he)).signed s⟩

end Rounding

end Double

end Retime
