import Retime.Proofs.DoubleValue

/-!
# Ties

What becomes of products that lie halfway between two doubles.

Of two points of the grid that are equally near, the one with the even mantissa
is taken. Its neighbour is a step away then, and it is an even multiple of that
step. So an even multiple of a step is what is rounded to also from half a step
away, and this is just what is left over where a whole number is divided and the
quotient, which had to be rounded, is multiplied again. With a divisor of two
binary digits the rest is half a step of the product at most, as it is a whole
number of smaller steps of which half a step has an even number. The whole number
comes back then, unless it has more than 52 bits.

## Main definitions

* `Double.EvenTie`: A rounded number that is even if it was halfway.

## Theorems

* `Double.evenTie_round`, `Double.evenTie_real_mul`: Ties go to even numbers.
* `Double.Nearest.abs_sub_le_half_step`: Rounding is off by half a step at most.
* `Double.OnGrid.step_le`: The grid has a step where its points are large.
* `Double.Nearest.eq_of_even`: What is rounded to an even number of steps.
* `Double.eq_of_two_digits`: Which quotients give back the dividend.
-/

namespace Retime

namespace Double

open Float.Model Float.Model.UnpackedFloat

/-- A rounded number that was halfway between two points of the grid is an even
    multiple of the distance to the other one. -/
def EvenTie (x w : ℝ) : Prop :=
  ∀ a, OnGrid a → a ≠ w → |a - x| = |w - x| → ∃ n : ℤ, Even n ∧ w = n * (a - w)

namespace EvenTie

variable {x w : ℝ}

theorem neg (h : EvenTie x w) : EvenTie (-x) (-w) := by
  intro a ha hne htie
  have hdist : ∀ b : ℝ, |b - -x| = |-b - x| := by
    intro b
    rw [← abs_neg, neg_sub', neg_neg]
  rw [hdist, hdist, neg_neg] at htie
  rcases h (-a) ha.neg (fun heq => hne (neg_eq_iff_eq_neg.mp heq)) htie with ⟨n, heven, hn⟩
  exact ⟨n, heven, by linear_combination -hn⟩

theorem signed (h : EvenTie x w) (s : Sign) : EvenTie (signed s x) (signed s w) := by
  cases s with
  | positive => exact h
  | negative => exact h.neg

/-- What is not rounded is not halfway. -/
theorem self (w : ℝ) : EvenTie w w := by
  intro a _ hne htie
  rw [sub_self, abs_zero, abs_eq_zero, sub_eq_zero] at htie
  exact absurd htie hne

end EvenTie

/-- A mantissa that is off by a half is even. -/
theorem Describes.even_of_half {x : ExtendedMantissa} {y : ℝ} (h : Describes x y)
    (hhalf : |(x.roundedMantissa : ℝ) - y| = 1 / 2) : x.roundedMantissa % 2 = 0 := by
  rcases h with ⟨f, rfl, hf, hlt, hsticky⟩
  obtain ⟨m, round, sticky⟩ := x
  -- Below the half and above it the error is less than a half, which leaves the tie.
  cases round with
  | false =>
      rw [rounded_below, if_neg Bool.false_ne_true, abs_of_nonpos (by linarith)] at hhalf
      linarith
  | true =>
      cases sticky with
      | true =>
          have hpos : 0 < f := hsticky.mp rfl
          rw [rounded_above, if_pos rfl, abs_of_nonneg (by push_cast; linarith)] at hhalf
          push_cast at hhalf
          linarith
      | false =>
          rw [rounded_halfway]
          omega

/-- Whole numbers of steps that are equally far from a third number are neighbours,
    if one of them is off by half a step at most. -/
theorem neighbours_of_half {y : ℝ} {n k : ℤ} (hhalf : |(n : ℝ) - y| ≤ 1 / 2)
    (htie : |(k : ℝ) - y| = |(n : ℝ) - y|) (hne : k ≠ n) :
    |(n : ℝ) - y| = 1 / 2 ∧ (k = n + 1 ∨ k = n - 1) := by
  have htriangle := abs_sub_le (k : ℝ) y n
  rw [abs_sub_comm y, htie] at htriangle
  have hlow := one_le_abs_sub hne
  have hhigh : |(k : ℝ) - n| ≤ 1 := by linarith
  have hhigh' : |k - n| ≤ 1 := by exact_mod_cast hhigh
  refine ⟨by linarith, ?_⟩
  rw [abs_le] at hhigh'
  omega

/-- A number of steps that is off by half a step is even, if the steps are those of
    the grid and halves are rounded to even numbers. -/
theorem evenTie_of_half {y : ℝ} {n : Nat} {t : Int} (hn : n ≤ 2 ^ 53) (ht : -1074 ≤ t)
    (hhalf : |(n : ℝ) - y| ≤ 1 / 2) (heven : |(n : ℝ) - y| = 1 / 2 → n % 2 = 0)
    (hlong : t = -1074 ∨ 2 ^ 52 ≤ y) : EvenTie (y * 2 ^ t) (n * 2 ^ t) := by
  have hstep : (0 : ℝ) < 2 ^ t := zpow_pos two_pos t
  have hwhole : ∀ k : ℤ, (k : ℝ) * 2 ^ t ≠ n * 2 ^ t →
      |(k : ℝ) * 2 ^ t - y * 2 ^ t| = |(n : ℝ) * 2 ^ t - y * 2 ^ t| →
      ∃ l : ℤ, Even l ∧ (n : ℝ) * 2 ^ t = l * ((k : ℝ) * 2 ^ t - n * 2 ^ t) := by
    intro k hne htie
    rw [← sub_mul, ← sub_mul, abs_mul, abs_mul, mul_left_inj' (abs_pos.mpr hstep.ne').ne'] at htie
    have hkn : k ≠ n := by
      rintro rfl
      exact hne rfl
    rcases neighbours_of_half (n := n) hhalf htie hkn with ⟨hmiddle, hnext⟩
    have hn' : Even (n : ℤ) := (Int.even_coe_nat n).mpr (Nat.even_iff.mpr (heven hmiddle))
    rcases hnext with rfl | rfl
    · refine ⟨n, hn', ?_⟩
      push_cast
      ring
    · refine ⟨-n, hn'.neg, ?_⟩
      push_cast
      ring
  rintro a ⟨k, q, hk, hq, rfl⟩ hne htie
  by_cases hqt : t ≤ q
  · rw [intCast_mul_zpow k hqt] at hne htie ⊢
    exact hwhole _ hne htie
  -- A finer point that is as near can only be where the finer grid ends.
  · have hfull := hlong.resolve_left (by omega)
    have hpower := intCast_mul_zpow_le hk (not_le.mp hqt)
    have hbelow : ((2 ^ 52 : ℤ) : ℝ) * 2 ^ t ≤ y * 2 ^ t := by
      refine mul_le_mul_of_nonneg_right ?_ hstep.le
      exact_mod_cast hfull
    have hleast := (nearest_of_half hn ht hhalf hlong).least _
      ⟨2 ^ 52, t, by decide, ht, rfl⟩
    rw [← htie, abs_of_nonpos (by linarith), abs_of_nonpos (by linarith)] at hleast
    have hend : (k : ℝ) * 2 ^ q = ((2 ^ 52 : ℤ) : ℝ) * 2 ^ t := by linarith
    rw [hend] at hne htie ⊢
    exact hwhole _ hne htie

theorem evenTie_round (s : Sign) {m : Nat} {e : Int} {a : Accuracy} {y : ℝ}
    (hy : Describes (ExtendedMantissa.ofMantissaAndAccuracy m a) y) (he : e ≤ target m e) :
    EvenTie (signed s (y * 2 ^ e)) (value (roundWithAccuracy Format.binary64 s m e a)) := by
  have hcut := hy.shiftRight (target m e - e).toNat
  rw [(value_round s a he).2, cut_scaled y he]
  exact (evenTie_of_half (rounded_cut_le a) (le_max_right _ _) hcut.abs_rounded_sub_le
    hcut.even_of_half (hcut.cut_long he)).signed s

theorem evenTie_mul {u v : UnpackedFloat} (hu : Canonical u) (hv : Canonical v) :
    EvenTie (value u * value v) (value (UnpackedFloat.mul Format.binary64 u v)) := by
  have hzero : ∀ {x : ℝ}, x = 0 → EvenTie x 0 := fun h => h ▸ .self 0
  cases hu with
  | zero =>
      cases hv with
      | zero | finite => exact hzero (zero_mul _)
  | @finite s m e hm hlt hlow hshort =>
      cases hv with
      | zero => exact hzero (mul_zero _)
      | @finite t n q hn hlt' hlow' hshort' =>
          -- As for the nearest point, the product of the mantissas is rounded once.
          have hround := evenTie_round (s * t) (describes_exact (m * n))
            (le_target_mul hm hn hshort hshort')
          rw [signed_mul_signed] at hround
          exact hround

/-- Products of doubles that are halfway between two points of the grid go to the
    even one. -/
theorem evenTie_real_mul {x y : Float} (hx : x.isFinite = true) (hy : y.isFinite = true)
    (hxy : (x * y).isFinite = true) : EvenTie (real x * real y) (real (x * y)) := by
  have hmul := nearest_mul (canonical_of_isFinite hx) (canonical_of_isFinite hy)
  have hreal : real (x * y) = value (UnpackedFloat.mul Format.binary64 _ _) :=
    real_pack hmul.1 hxy
  rw [hreal]
  exact evenTie_mul (canonical_of_isFinite hx) (canonical_of_isFinite hy)

/-! ### Quotients that give back the dividend -/

/-- A point of the grid is rounded to itself only. -/
theorem Nearest.eq_of_onGrid {x w : ℝ} (h : Nearest x w) (hx : OnGrid x) : w = x :=
  le_antisymm (h.le_of_ge hx le_rfl) (h.le_of_le hx le_rfl)

/-- Rounding does not pass a point of the grid on the way to zero. -/
theorem Nearest.le_abs_of_le {x w a : ℝ} (h : Nearest x w) (ha : OnGrid a) (hax : a ≤ |x|) :
    a ≤ |w| := by
  rcases le_abs.mp hax with hle | hle
  · exact (h.le_of_le ha hle).trans (le_abs_self w)
  · exact (h.neg.le_of_le ha hle).trans (neg_le_abs w)

/-- Rounding is off by half a step at most. -/
theorem Nearest.abs_sub_le_half_step {x w : ℝ} (h : Nearest x w) {e : ℤ} (he : -1074 ≤ e)
    (hx : |x| < 2 ^ 53 * 2 ^ e) : |w - x| ≤ 2 ^ e / 2 := by
  have hstep : (0 : ℝ) < 2 ^ e := zpow_pos two_pos e
  obtain ⟨n, hn⟩ : ∃ n : ℤ, |n - x / 2 ^ e| ≤ 1 / 2 :=
    ⟨_, (abs_sub_comm _ _).trans_le (abs_sub_round _)⟩
  have hscaled : |x / 2 ^ e| < 2 ^ 53 := by
    rwa [abs_div, abs_of_pos hstep, div_lt_iff₀ hstep]
  -- The nearest multiple of the step has at most 53 bits, so it is a point of the grid.
  have hsize : |n| ≤ 2 ^ 53 := by
    have htriangle := abs_sub_le (n : ℝ) (x / 2 ^ e) 0
    rw [sub_zero, sub_zero] at htriangle
    have hlt : |(n : ℝ)| < 2 ^ 53 + 1 := by linarith
    have hlt' : |n| < 2 ^ 53 + 1 := by exact_mod_cast hlt
    omega
  calc |w - x| ≤ |n * 2 ^ e - x| := h.least _ ⟨n, e, hsize, he, rfl⟩
    _ = |n - x / 2 ^ e| * 2 ^ e := (abs_sub_div_mul hstep _ _).symm
    _ ≤ 1 / 2 * 2 ^ e := mul_le_mul_of_nonneg_right hn hstep.le
    _ = 2 ^ e / 2 := by ring

/-- The part of the grid with a smaller exponent ends at a power of two, also below
    zero. -/
theorem abs_intCast_mul_zpow_le {k q t : ℤ} (hk : |k| ≤ 2 ^ 53) (h : q < t) :
    |(k : ℝ) * 2 ^ q| ≤ 2 ^ 52 * 2 ^ t := by
  have hle := intCast_mul_zpow_le hk h
  have hle' := intCast_mul_zpow_le ((abs_neg k).trans_le hk) h
  push_cast at hle hle'
  exact abs_le.mpr ⟨by linarith, by linarith⟩

/-- Points of the grid that are large enough are multiples of a step. -/
theorem OnGrid.multiple_of_le {a : ℝ} (h : OnGrid a) {e : ℤ} (ha : 2 ^ 52 * 2 ^ e ≤ |a|) :
    ∃ n : ℤ, a = n * 2 ^ e := by
  rcases h with ⟨k, q, hk, -, rfl⟩
  rcases le_or_gt e q with hq | hq
  · exact ⟨_, intCast_mul_zpow k hq⟩
  · have hend := le_antisymm (abs_intCast_mul_zpow_le hk hq) ha
    rcases eq_or_eq_neg_of_abs_eq hend with heq | heq
    · refine ⟨2 ^ 52, heq.trans ?_⟩
      norm_num
    · refine ⟨-2 ^ 52, heq.trans ?_⟩
      norm_num

/-- Other points of the grid are a step away from a multiple of a step, if that is
    large enough. -/
theorem OnGrid.step_le {a : ℝ} (h : OnGrid a) {n r : ℤ} (hne : a ≠ n * 2 ^ r)
    (hn : 2 ^ 52 * 2 ^ r + 2 ^ r ≤ |(n : ℝ) * 2 ^ r|) : 2 ^ r ≤ |a - n * 2 ^ r| := by
  have hstep : (0 : ℝ) < 2 ^ r := zpow_pos two_pos r
  rcases h with ⟨k, q, hk, -, rfl⟩
  -- Points of the same or larger steps are multiples of the step.
  rcases le_or_gt r q with hq | hq
  · rw [intCast_mul_zpow k hq] at hne ⊢
    generalize k * 2 ^ (q - r).toNat = m at hne
    have hmn : m ≠ n := fun heq => hne (by rw [heq])
    rw [← sub_mul, abs_mul, abs_of_pos hstep]
    exact le_mul_of_one_le_left hstep.le (one_le_abs_sub hmn)
  · -- Points of smaller steps do not reach that far.
    have hsmall := abs_intCast_mul_zpow_le hk hq
    have htriangle := abs_sub_abs_le_abs_sub ((n : ℝ) * 2 ^ r) (k * 2 ^ q)
    rw [abs_sub_comm]
    linarith

/-- An even multiple of a step is what is rounded to from half a step away. -/
theorem Nearest.eq_of_even {x w : ℝ} (h : Nearest x w) (htie : EvenTie x w) {l r : ℤ}
    (hgrid : OnGrid ((2 * l : ℤ) * 2 ^ r))
    (hlarge : 2 ^ 52 * 2 ^ r + 2 ^ r ≤ |((2 * l : ℤ) : ℝ) * 2 ^ r|)
    (hx : |x - (2 * l : ℤ) * 2 ^ r| ≤ 2 ^ r / 2) : w = (2 * l : ℤ) * 2 ^ r := by
  have hstep : (0 : ℝ) < 2 ^ r := zpow_pos two_pos r
  by_contra hne
  have hgap := h.onGrid.step_le hne hlarge
  have hleast := h.least _ hgrid
  have htriangle := abs_sub_le w x ((2 * l : ℤ) * 2 ^ r)
  rw [abs_sub_comm ((2 * l : ℤ) * 2 ^ r : ℝ)] at hleast
  -- Anything else is half a step away as well, and an odd multiple of a step.
  have hboth : |((2 * l : ℤ) : ℝ) * 2 ^ r - x| = |w - x| := by
    rw [abs_sub_comm]
    linarith
  have hdist : |w - (2 * l : ℤ) * 2 ^ r| = 2 ^ r := by linarith
  rcases htie _ hgrid (Ne.symm hne) hboth with ⟨n, ⟨m, rfl⟩, hn⟩
  have hodd : 2 * l = 2 * m + 1 ∨ 2 * l = -(2 * m + 1) := by
    push_cast at hn
    rcases eq_or_eq_neg_of_abs_eq hdist with heq | heq
    · have hreal : ((2 * l : ℤ) : ℝ) = -(2 * m + 1) := by
        refine mul_right_cancel₀ hstep.ne' ?_
        push_cast at heq ⊢
        linear_combination hn - (2 * (m : ℝ) + 1) * heq
      exact Or.inr (by exact_mod_cast hreal)
    · have hreal : ((2 * l : ℤ) : ℝ) = 2 * m + 1 := by
        refine mul_right_cancel₀ hstep.ne' ?_
        push_cast at heq ⊢
        linear_combination hn - (2 * (m : ℝ) + 1) * heq
      exact Or.inl (by exact_mod_cast hreal)
  omega

section TwoDigits

variable {n : ℕ} {j k e : ℤ} {f : ℝ}

/-- Half a step of the quotient is half a step of the product. -/
theorem abs_product_sub_le {s : ℝ} (hn : 1 ≤ n) (hf : f = (2 ^ n + 1) * 2 ^ j) (hpos : 0 < f)
    (hje : j + e ≤ 0) (hs : ∃ m : ℤ, s = m * 2 ^ e) (hoff : |s - k / f| ≤ 2 ^ e / 2) :
    |s * f - k| ≤ 2 ^ (n + (j + e)) / 2 := by
  rcases hs with ⟨m, rfl⟩
  have hstep : (0 : ℝ) < 2 ^ (j + e) := zpow_pos two_pos _
  -- The difference is a whole number of small steps.
  obtain ⟨l, hl⟩ : ∃ l : ℤ, m * 2 ^ e * f - k = l * 2 ^ (j + e) := by
    refine ⟨m * (2 ^ n + 1) - k * 2 ^ (0 - (j + e)).toNat, ?_⟩
    have hk := intCast_mul_zpow k hje
    rw [zpow_zero, mul_one] at hk
    rw [hk, hf, zpow_add₀ two_ne_zero]
    push_cast
    ring
  have hbound : |(l : ℝ)| * 2 ^ (j + e) ≤ (2 ^ n + 1) / 2 * 2 ^ (j + e) := by
    calc |(l : ℝ)| * 2 ^ (j + e) = |m * 2 ^ e * f - k| := by rw [hl, abs_mul, abs_of_pos hstep]
      _ = |m * 2 ^ e - k / f| * f := (abs_sub_div_mul hpos _ _).symm
      _ ≤ 2 ^ e / 2 * f := mul_le_mul_of_nonneg_right hoff hpos.le
      _ = (2 ^ n + 1) / 2 * 2 ^ (j + e) := by
          rw [hf, zpow_add₀ two_ne_zero]
          ring
  have hdouble : 2 * |(l : ℝ)| ≤ 2 ^ n + 1 := by
    have hle := le_of_mul_le_mul_right hbound hstep
    linarith
  have hdouble' : 2 * |l| ≤ 2 ^ n + 1 := by exact_mod_cast hdouble
  -- Twice the number is even, so it does not reach the odd bound.
  have heven : 2 * |l| ≤ 2 ^ n := by
    obtain ⟨i, rfl⟩ : ∃ i, n = i + 1 := ⟨n - 1, by omega⟩
    rw [pow_succ] at hdouble' ⊢
    omega
  have heven' : 2 * |(l : ℝ)| ≤ 2 ^ n := by exact_mod_cast heven
  have hmul := mul_le_mul_of_nonneg_right heven' hstep.le
  have hexp : (2 : ℝ) ^ (n + (j + e)) = 2 ^ n * 2 ^ (j + e) := by
    rw [zpow_add₀ two_ne_zero (n : ℤ), zpow_natCast]
  rw [hl, abs_mul, abs_of_pos hstep, hexp]
  linarith

/-- The bits of a quotient, and how they lie in the whole number. -/
theorem exists_step (hf : f = (2 ^ n + 1) * 2 ^ j) (hpos : 0 < f) (hsmall : f ≤ 2 ^ 1021)
    (hk : |k| < 2 ^ 52) (hne : k ≠ 0) :
    ∃ e : ℤ, -1074 ≤ e ∧ 2 ^ 52 * 2 ^ e ≤ |(k : ℝ) / f| ∧ |(k : ℝ) / f| < 2 ^ 53 * 2 ^ e ∧
      n + (j + e) < 0 := by
  have hquotient : 0 < |(k : ℝ) / f| :=
    abs_pos.mpr (div_ne_zero (Int.cast_ne_zero.mpr hne) hpos.ne')
  have hdigits : |(k : ℝ) / f| * f = |(k : ℝ)| := by
    rw [abs_div, abs_of_pos hpos, div_mul_cancel₀ _ hpos.ne']
  -- The power of two below the quotient gives the step of its last bit.
  rcases exists_mem_Ico_zpow hquotient (one_lt_two (α := ℝ)) with ⟨c, hc, hc'⟩
  have hlow : (2 : ℝ) ^ 52 * 2 ^ (c - 52) = 2 ^ c := by
    rw [← zpow_natCast, ← zpow_add₀ two_ne_zero]
    congr 1
    omega
  have hhigh : (2 : ℝ) ^ 53 * 2 ^ (c - 52) = 2 ^ (c + 1) := by
    rw [← zpow_natCast, ← zpow_add₀ two_ne_zero]
    congr 1
    omega
  refine ⟨c - 52, ?_, hlow.trans_le hc, hc'.trans_eq hhigh.symm, ?_⟩
  · -- The whole number is one at least, so the quotient is not too small for such a step.
    have hone : (1 : ℝ) ≤ |(k : ℝ)| := by exact_mod_cast Int.one_le_abs hne
    have hlt : (2 : ℝ) ^ (0 : ℤ) < 2 ^ (c + 1 + 1021) := by
      calc (2 : ℝ) ^ (0 : ℤ) ≤ |(k : ℝ) / f| * f := by rwa [zpow_zero, hdigits]
        _ < 2 ^ (c + 1) * f := mul_lt_mul_of_pos_right hc' hpos
        _ ≤ 2 ^ (c + 1) * 2 ^ (1021 : ℤ) :=
            mul_le_mul_of_nonneg_left (by exact_mod_cast hsmall) (zpow_pos two_pos _).le
        _ = 2 ^ (c + 1 + 1021) := (zpow_add₀ two_ne_zero _ _).symm
    rw [zpow_lt_zpow_iff_right₀ one_lt_two] at hlt
    omega
  · -- And it has at most 52 bits, which bounds the step from above.
    have hk' : |(k : ℝ)| < 2 ^ (52 : ℤ) := by exact_mod_cast hk
    have hlt : (2 : ℝ) ^ (c + (n + j)) < 2 ^ (52 : ℤ) := by
      calc (2 : ℝ) ^ (c + (n + j)) = 2 ^ c * (2 ^ n * 2 ^ j) := by
            rw [zpow_add₀ two_ne_zero, zpow_add₀ two_ne_zero (n : ℤ), zpow_natCast]
        _ ≤ |(k : ℝ) / f| * f := by
            refine mul_le_mul hc ?_ (by positivity) hquotient.le
            rw [hf]
            exact mul_le_mul_of_nonneg_right (by linarith) (zpow_pos two_pos j).le
        _ = |(k : ℝ)| := hdigits
        _ < 2 ^ (52 : ℤ) := hk'
    rw [zpow_lt_zpow_iff_right₀ one_lt_two] at hlt
    omega

/-- A whole number is an even multiple of a step below one. -/
theorem eq_even_mul_zpow (k : ℤ) {r : ℤ} (hr : r < 0) :
    (k : ℝ) = (2 * (k * 2 ^ (-r - 1).toNat) : ℤ) * 2 ^ r := by
  have hsplit := intCast_mul_zpow k hr.le
  have hexp : (0 - r).toNat = (-r - 1).toNat + 1 := by omega
  rw [zpow_zero, mul_one, hexp, pow_succ] at hsplit
  rw [hsplit]
  push_cast
  ring

/-- The second digit takes the whole number a step away from where the grid gets
    finer. -/
theorem step_le_abs (hn : n ≤ 52) (hf : f = (2 ^ n + 1) * 2 ^ j) (hpos : 0 < f)
    (hlow : 2 ^ 52 * 2 ^ e ≤ |(k : ℝ) / f|) :
    (2 : ℝ) ^ 52 * 2 ^ (n + (j + e)) + 2 ^ (n + (j + e)) ≤ |(k : ℝ)| := by
  rw [abs_div, abs_of_pos hpos, le_div_iff₀ hpos] at hlow
  have hpow : (2 : ℝ) ^ n ≤ 2 ^ 52 := pow_le_pow_right₀ one_le_two hn
  have hmul := mul_le_mul_of_nonneg_right hpow (zpow_pos (two_pos (α := ℝ)) (j + e)).le
  refine le_trans ?_ hlow
  rw [hf, zpow_add₀ two_ne_zero, zpow_natCast]
  rw [zpow_add₀ two_ne_zero] at hmul ⊢
  linarith

/-- A whole number over a number of two binary digits, rounded, gives the whole
    number back. -/
theorem eq_of_two_digits {s y : ℝ} (hn : 1 ≤ n) (hn' : n ≤ 52)
    (hf : f = (2 ^ n + 1) * 2 ^ j) (hsmall : f ≤ 2 ^ 1021) (hk : |k| < 2 ^ 52)
    (hs : Nearest (k / f) s) (hy : Nearest (s * f) y) (htie : EvenTie (s * f) y) : y = k := by
  have hpos : 0 < f := by
    rw [hf]
    exact mul_pos (by positivity) (zpow_pos two_pos j)
  have hgrid : OnGrid k := onGrid_intCast (hk.le.trans (by decide))
  rcases eq_or_ne k 0 with rfl | hne
  · rw [Int.cast_zero, zero_div] at hs
    rw [hs.eq_of_onGrid onGrid_zero, zero_mul] at hy
    rw [hy.eq_of_onGrid onGrid_zero, Int.cast_zero]
  rcases exists_step hf hpos hsmall hk hne with ⟨e, he, hlow, hhigh, hr⟩
  have hmultiple := hs.onGrid.multiple_of_le
    (hs.le_abs_of_le ⟨2 ^ 52, e, by decide, he, by norm_num⟩ hlow)
  have hclose := abs_product_sub_le (k := k) hn hf hpos (by omega) hmultiple
    (hs.abs_sub_le_half_step he hhigh)
  have hlarge := step_le_abs hn' hf hpos hlow
  -- With no more than 52 bits the whole number is even, counted in steps.
  rw [eq_even_mul_zpow k hr] at hgrid hclose hlarge ⊢
  exact hy.eq_of_even htie hgrid hlarge hclose

end TwoDigits

end Double

end Retime
