import Retime.Proofs.DoubleValue

/-!
# Whole Doubles

Floors, roundings and powers of ten of doubles.

What is behind the point of a double has some of the bits of its mantissa, so that
a double less its floor is exact. So rounding a double gives the whole number that
is nearest to its value, just as in exact arithmetic, and no double is too large
for that, since large doubles are whole. Products of whole numbers are exact as
long as they have no more than 53 bits, and the powers of ten up to the fifteenth
are such.

What is not finite stays so. A result that is finite has been computed from finite
doubles, with one exception: a number over an infinite one is zero.

## Theorems

* `Double.isFinite_of_add`, `Double.isFinite_of_sub`, `Double.isFinite_of_mul`,
  `Double.isFinite_of_div`: A finite result has finite operands.
* `Double.within_ofInt`: Whole numbers of up to 53 bits are exact.
* `Double.within_floor`: The floor of a double is that of its value.
* `Double.within_round`: A double is rounded as its value is.
* `Double.toInt_of_whole`: A whole double is cut to its value.
* `Double.within_pow_ten`: Powers of ten are exact.
-/

namespace Retime

namespace Double

open Float.Model Float.Model.UnpackedFloat

/-! ### Finite operands -/

section Operands

variable {x y : Float}

theorem isFinite_of_pack {u : UnpackedFloat}
    (h : (⟨Float.Model.pack u⟩ : Float).isFinite = true) : u.isFinite = true := by
  -- Packing keeps infinities and what is no number as they are.
  cases u with
  | infinity s =>
      have hpack : (UnpackedFloat.unpack _ (packedInfinity Format.binary64 s)).isFinite = true := h
      rw [unpack_packedInfinity] at hpack
      exact hpack
  | notANumber =>
      have hpack : (UnpackedFloat.unpack _ (packedNaN Format.binary64)).isFinite = true := h
      rw [unpack_packedNaN] at hpack
      exact hpack
  | zero | finite => rfl

theorem unpackedAdd_finite {u v : UnpackedFloat}
    (h : (UnpackedFloat.add Format.binary64 u v).isFinite = true) :
    u.isFinite = true ∧ v.isFinite = true := by
  cases u with
  | notANumber => cases h
  | infinity s =>
      cases v with
      | notANumber => cases h
      | infinity t =>
          -- Two infinities add up to one or to no number, as their signs are.
          simp only [UnpackedFloat.add] at h
          split at h
          · cases h
          · cases h
      | zero | finite => cases h
  | zero =>
      cases v with
      | notANumber | infinity => cases h
      | zero | finite => exact ⟨rfl, rfl⟩
  | finite =>
      cases v with
      | notANumber | infinity => cases h
      | zero | finite => exact ⟨rfl, rfl⟩

theorem unpackedNeg_finite {u : UnpackedFloat} (h : u.neg.isFinite = true) :
    u.isFinite = true := by
  cases u with
  | notANumber | infinity => cases h
  | zero | finite => rfl

/-- A finite sum has finite terms. -/
theorem isFinite_of_add (h : (x + y).isFinite = true) : x.isFinite = true ∧ y.isFinite = true :=
  unpackedAdd_finite (isFinite_of_pack h)

theorem isFinite_of_neg (h : (-x).isFinite = true) : x.isFinite = true :=
  unpackedNeg_finite (isFinite_of_pack h)

/-- A finite difference has finite terms. -/
theorem isFinite_of_sub (h : (x - y).isFinite = true) : x.isFinite = true ∧ y.isFinite = true := by
  have hsub := isFinite_of_pack h
  rw [unpackedSub_eq] at hsub
  rcases unpackedAdd_finite hsub with ⟨hx, hy⟩
  exact ⟨hx, unpackedNeg_finite hy⟩

/-- A finite product has finite factors. -/
theorem isFinite_of_mul (h : (x * y).isFinite = true) : x.isFinite = true ∧ y.isFinite = true := by
  -- The test is on the unpacked product, before it is packed, where the cases compute.
  have hmul : ∀ {u v : UnpackedFloat}, (UnpackedFloat.mul Format.binary64 u v).isFinite = true →
      u.isFinite = true ∧ v.isFinite = true := by
    intro u v h
    cases u with
    | notANumber => cases h
    | infinity s =>
        cases v with
        | notANumber | infinity | zero | finite => cases h
    | zero =>
        cases v with
        | notANumber | infinity => cases h
        | zero | finite => exact ⟨rfl, rfl⟩
    | finite =>
        cases v with
        | notANumber | infinity => cases h
        | zero | finite => exact ⟨rfl, rfl⟩
  exact hmul (isFinite_of_pack h)

theorem value_finite_ne_zero (s : Sign) {m : ℕ} (e : ℤ) (hm : 0 < m) :
    value (.finite s m e hm) ≠ 0 := by
  have hpos : (0 : ℝ) < m * 2 ^ e := mul_pos (Nat.cast_pos.mpr hm) (zpow_pos two_pos e)
  cases s with
  | positive => exact hpos.ne'
  | negative => exact neg_ne_zero.mpr hpos.ne'

theorem within_div_of_zero {s : Sign}
    (h : UnpackedFloat.div Format.binary64 x.toModel.unpack y.toModel.unpack = .zero s) :
    Within (x / y) 0 0 := by
  have hunpack : (x / y).toModel.unpack = .zero s := by
    change (Float.Model.pack (UnpackedFloat.div Format.binary64 _ _)).unpack = .zero s
    rw [h]
    exact unpack_pack .zero .zero
  exact .of_real_eq (congrArg UnpackedFloat.isFinite hunpack) (congrArg value hunpack)

/-- A finite quotient has a finite dividend. If the divisor is infinite the
    quotient is zero, and otherwise the divisor is not. -/
theorem isFinite_of_div (h : (x / y).isFinite = true) : x.isFinite = true ∧
    (y.isFinite = false ∧ real (x / y) = 0 ∨ y.isFinite = true ∧ real y ≠ 0) := by
  -- Before packing, a quotient by an infinite divisor is a zero of some sign.
  have hdiv : ∀ {u v : UnpackedFloat}, (UnpackedFloat.div Format.binary64 u v).isFinite = true →
      u.isFinite = true ∧
        (v.isFinite = false ∧ (∃ s, UnpackedFloat.div Format.binary64 u v = .zero s) ∨
          v.isFinite = true ∧ value v ≠ 0) := by
    intro u v h
    cases u with
    | notANumber => cases h
    | infinity s =>
        cases v with
        | notANumber | infinity | zero | finite => cases h
    | zero s =>
        cases v with
        | notANumber | zero => cases h
        | infinity t => exact ⟨rfl, Or.inl ⟨rfl, _, rfl⟩⟩
        | finite t n q hn => exact ⟨rfl, Or.inr ⟨rfl, value_finite_ne_zero t q hn⟩⟩
    | finite s m e hm =>
        cases v with
        | notANumber | zero => cases h
        | infinity t => exact ⟨rfl, Or.inl ⟨rfl, _, rfl⟩⟩
        | finite t n q hn => exact ⟨rfl, Or.inr ⟨rfl, value_finite_ne_zero t q hn⟩⟩
  rcases hdiv (isFinite_of_pack h) with ⟨hx, ⟨hy, s, hzero⟩ | hy⟩
  · exact ⟨hx, Or.inl ⟨hy, (within_div_of_zero hzero).real_eq⟩⟩
  · exact ⟨hx, Or.inr hy⟩

/-- Zero by a number that is not zero is zero, also if that is infinite. -/
theorem within_zero_div (hx : Within x 0 0) (hy : y.toModel.unpack.isNaN = false)
    (hne : y.isFinite = true → real y ≠ 0) : Within (x / y) 0 0 := by
  -- The dividend is canonical, so that only a zero has the value zero.
  have hdiv : ∀ {u v : UnpackedFloat}, Canonical u → value u = 0 → v.isNaN = false →
      (v.isFinite = true → value v ≠ 0) → ∃ s, UnpackedFloat.div Format.binary64 u v = .zero s := by
    intro u v hu hzero hv hne
    cases hu with
    | zero =>
        cases v with
        | notANumber => cases hv
        | zero => exact absurd rfl (hne rfl)
        | infinity | finite => exact ⟨_, rfl⟩
    | finite => exact absurd hzero (value_finite_ne_zero _ _ _)
  rcases hdiv (canonical_of_isFinite hx.isFinite) hx.real_eq hy hne with ⟨s, hzero⟩
  exact within_div_of_zero hzero

/-- The floor of a double is not finite unless the double is. -/
theorem isFinite_of_floor (h : (floor x).isFinite = true) : x.isFinite = true := by
  unfold floor at h
  cases hx : x.toModel.unpack with
  | finite s m q hm => exact congrArg UnpackedFloat.isFinite hx
  | zero s => exact congrArg UnpackedFloat.isFinite hx
  | infinity s => rw [hx] at h; exact h
  | notANumber => rw [hx] at h; exact h

/-- Nor is what it is rounded to. -/
theorem isFinite_of_round (h : (Scalar.round x).isFinite = true) : x.isFinite = true := by
  -- Negative numbers are rounded through their opposites, the others directly.
  have hup : ∀ {y : Float}, (Scalar.roundUp y).isFinite = true → y.isFinite = true := by
    intro y h
    unfold Scalar.roundUp at h
    split at h
    · exact isFinite_of_floor h
    · exact isFinite_of_floor (isFinite_of_add h).1
  unfold Scalar.round at h
  split at h
  · exact isFinite_of_neg (hup (isFinite_of_neg h))
  · exact hup h

end Operands

/-! ### Whole numbers -/

namespace Within

variable {x y : Float} {a b : ℝ}

theorem neg (h : Within x a b) : Within (-x) (-b) (-a) := by
  have hcanonical := canonical_of_isFinite h.isFinite
  -- The opposite has room as the number has, so packing it loses nothing.
  have hunpack : (-x).toModel.unpack = x.toModel.unpack.neg := by
    refine unpack_pack hcanonical.neg ?_
    rw [under_iff_value hcanonical.neg, value_neg, abs_neg]
    exact abs_real_lt h.isFinite
  have hreal : real (-x) = -real x := by
    unfold real
    rw [hunpack, value_neg]
  rcases h with ⟨hfinite, hlow, hhigh⟩
  refine ⟨isFinite_neg hfinite, ?_, ?_⟩
  · rw [hreal]
    exact neg_le_neg hhigh
  · rw [hreal]
    exact neg_le_neg hlow

/-- Where the exact result is the value of a double, operations are exact. -/
theorem add_exact {c : ℝ} (hx : Within x a a) (hy : Within y b b) (h : a + b = c)
    (hc : Fits c) : Within (x + y) c c := by
  have hadd := rounds_add hx.isFinite hy.isFinite
  rw [hx.real_eq, hy.real_eq, h] at hadd
  exact hadd.exact hc

theorem sub_exact {c : ℝ} (hx : Within x a a) (hy : Within y b b) (h : a - b = c)
    (hc : Fits c) : Within (x - y) c c := by
  have hsub := rounds_sub hx.isFinite hy.isFinite
  rw [hx.real_eq, hy.real_eq, h] at hsub
  exact hsub.exact hc

theorem mul_exact {c : ℝ} (hx : Within x a a) (hy : Within y b b) (h : a * b = c)
    (hc : Fits c) : Within (x * y) c c := by
  have hmul := rounds_mul hx.isFinite hy.isFinite
  rw [hx.real_eq, hy.real_eq, h] at hmul
  exact hmul.exact hc

theorem div_exact {c : ℝ} (hx : Within x a a) (hy : Within y b b) (hb : b ≠ 0) (h : a / b = c)
    (hc : Fits c) : Within (x / y) c c := by
  have hne : real y ≠ 0 := by rwa [hy.real_eq]
  have hdiv := rounds_div hx.isFinite hy.isFinite hne
  rw [hx.real_eq, hy.real_eq, h] at hdiv
  exact hdiv.exact hc

end Within

section Whole

theorem real_of_unpack {x : Float} {s : Sign} {m : ℕ} {e : ℤ} {hm : 0 < m}
    (h : x.toModel.unpack = .finite s m e hm) : real x = signed s (m * 2 ^ e) :=
  congrArg value h

theorem within_zero : Within 0.0 0 0 := by
  have hunpack : (0.0 : Float).toModel.unpack = .zero .positive := by rfl
  exact .of_real_eq (by rfl) (congrArg value hunpack)

theorem within_half : Within 0.5 (1 / 2) (1 / 2) := by
  have hunpack : (0.5 : Float).toModel.unpack = .finite .positive (2 ^ 52) (-53) (by decide) := by
    rfl
  refine .of_real_eq (by rfl) ?_
  rw [real_of_unpack hunpack, signed]
  norm_num

theorem within_one : Within 1.0 1 1 := by
  have hunpack : (1.0 : Float).toModel.unpack = .finite .positive (2 ^ 52) (-52) (by decide) := by
    rfl
  refine .of_real_eq (by rfl) ?_
  rw [real_of_unpack hunpack, signed]
  norm_num

theorem within_two : Within 2.0 2 2 := by
  have hunpack : (2.0 : Float).toModel.unpack = .finite .positive (2 ^ 52) (-51) (by decide) := by
    rfl
  refine .of_real_eq (by rfl) ?_
  rw [real_of_unpack hunpack, signed]
  norm_num

theorem within_four : Within 4.0 4 4 := by
  have hunpack : (4.0 : Float).toModel.unpack = .finite .positive (2 ^ 52) (-50) (by decide) := by
    rfl
  refine .of_real_eq (by rfl) ?_
  rw [real_of_unpack hunpack, signed]
  norm_num

/-- Natural numbers of up to 53 bits are exact. -/
theorem within_ofNat {n : ℕ} (h : n < 2 ^ 53) : Within (Float.ofNat n) n n := by
  have hfits := fits_natCast h.le
  -- The number is converted and multiplied by one.
  have hword : n.toUInt64.toNat = n := UInt64.toNat_ofNat_of_lt (h.trans (by decide))
  have hconvert : Rounds n n.toUInt64.toFloat := by
    have hnearest := nearest_normalize n.toUInt64.toNat 0 .positive
    rw [zpow_zero, mul_one, Int.cast_natCast] at hnearest
    have hrounds : Rounds n.toUInt64.toNat n.toUInt64.toFloat := rounds_pack hnearest
    rwa [hword] at hrounds
  have hone : real Float.exactlyRepresentablePowersOfTen[0] = 1 := by
    have hunpack : Float.exactlyRepresentablePowersOfTen[0].toModel.unpack =
      .finite .positive (2 ^ 52) (-52) (by decide) := by rfl
    rw [real_of_unpack hunpack, signed]
    norm_num
  have hexact := hconvert.exact hfits
  have hmul := rounds_mul (y := Float.exactlyRepresentablePowersOfTen[0]) hexact.isFinite (by rfl)
  rw [hexact.real_eq, hone, mul_one] at hmul
  change Within (Float.ofScientific n false 0) n n
  unfold Float.ofScientific
  rw [dif_pos ⟨h, by decide⟩]
  exact hmul.exact hfits

/-- Whole numbers of up to 53 bits are exact. -/
theorem within_ofInt {k : ℤ} (h : |k| < 2 ^ 53) : Within (Float.ofInt k) k k := by
  cases k with
  | ofNat n =>
      have hlt : (n : ℤ) < 2 ^ 53 := (abs_lt.mp h).2
      exact within_ofNat (by exact_mod_cast hlt)
  | negSucc n =>
      have hlt : n + 1 < 2 ^ 53 := by
        rw [Int.negSucc_eq, abs_neg] at h
        exact_mod_cast h
      have hneg := (within_ofNat hlt).neg
      rw [Int.negSucc_eq]
      push_cast at hneg ⊢
      exact hneg

end Whole

/-! ### Rounding to whole numbers -/

section Rounding

variable {x : Float}

/-- A finite double as a whole number of steps. -/
theorem real_eq_scaled {s : Sign} {m : ℕ} {q : ℤ} {hm : 0 < m} (hx : x.isFinite = true)
    (h : x.toModel.unpack = .finite s m q hm) :
    |s.apply (m : ℤ)| < 2 ^ 53 ∧ -1074 ≤ q ∧ real x = (s.apply (m : ℤ) : ℤ) * 2 ^ q := by
  have hcanonical := canonical_of_isFinite hx
  rw [h] at hcanonical
  -- The bounds on mantissa and exponent are those of a canonical number.
  cases hcanonical with
  | finite hlt hlow _ =>
      refine ⟨?_, hlow, ?_⟩
      · have habs : |s.apply (m : ℤ)| = m := by
          cases s with
          | positive => exact Nat.abs_cast m
          | negative => exact (abs_neg _).trans (Nat.abs_cast m)
        rw [habs]
        exact_mod_cast hlt
      · rw [real_of_unpack h, apply_cast, signed_mul, Int.cast_natCast]

/-- Steps that are a power of two to the whole. -/
theorem floor_scaled (k : ℤ) {q : ℤ} (hq : q < 0) :
    ⌊(k : ℝ) * 2 ^ q⌋ = k >>> (-q).toNat ∧
      Int.fract ((k : ℝ) * 2 ^ q) = (k % 2 ^ (-q).toNat : ℤ) * 2 ^ q := by
  -- As a fraction of whole numbers, the steps turn the floor into a division.
  have hpow : (2 : ℝ) ^ q = 1 / ((2 ^ (-q).toNat : ℤ) : ℝ) := by
    have hexp : q = -((-q).toNat : ℤ) := by omega
    conv_lhs => rw [hexp, zpow_neg, zpow_natCast]
    rw [one_div]
    push_cast
    rfl
  have hfloor : ⌊(k : ℝ) * 2 ^ q⌋ = k / 2 ^ (-q).toNat := by
    rw [hpow, mul_one_div, Int.floor_div_cast_of_nonneg (by positivity), Int.floor_intCast]
  have hne : ((2 ^ (-q).toNat : ℤ) : ℝ) ≠ 0 := by positivity
  refine ⟨?_, ?_⟩
  · rw [hfloor, Int.shiftRight_eq_div_pow]
    rfl
  · -- What the division leaves is what is behind the point.
    have hsplit : (k : ℝ) = ((2 ^ (-q).toNat : ℤ) : ℝ) * ((k / 2 ^ (-q).toNat : ℤ) : ℝ) +
        ((k % 2 ^ (-q).toNat : ℤ) : ℝ) := by
      exact_mod_cast (Int.mul_ediv_add_emod k (2 ^ (-q).toNat)).symm
    rw [Int.fract, hfloor, hpow]
    conv_lhs => rw [hsplit]
    field_simp
    ring

/-- A finite double is zero or has a mantissa and an exponent. -/
theorem unpack_cases (hx : x.isFinite = true) :
    ((∃ s, x.toModel.unpack = .zero s) ∧ real x = 0) ∨
      ∃ s m q hm, x.toModel.unpack = .finite s m q hm := by
  cases hunpack : x.toModel.unpack with
  | infinity s => exact absurd (hx.symm.trans (congrArg UnpackedFloat.isFinite hunpack)) nofun
  | notANumber => exact absurd (hx.symm.trans (congrArg UnpackedFloat.isFinite hunpack)) nofun
  | zero s => exact Or.inl ⟨⟨s, rfl⟩, congrArg value hunpack⟩
  | finite s m q hm => exact Or.inr ⟨s, m, q, hm, rfl⟩

theorem two_zpow_of_nonneg {q : ℤ} (hq : 0 ≤ q) : (2 : ℝ) ^ q = ((2 ^ q.toNat : ℤ) : ℝ) := by
  conv_lhs => rw [← Int.toNat_of_nonneg hq, zpow_natCast]
  push_cast
  rfl

/-- A double with an exponent that is not negative is whole. -/
theorem floor_whole (k : ℤ) {q : ℤ} (hq : 0 ≤ q) : (⌊(k : ℝ) * 2 ^ q⌋ : ℝ) = k * 2 ^ q := by
  rw [two_zpow_of_nonneg hq, ← Int.cast_mul, Int.floor_intCast]

/-- The floor of a double is that of its value. -/
theorem within_floor (hx : x.isFinite = true) : Within (floor x) ⌊real x⌋ ⌊real x⌋ := by
  unfold floor
  rcases unpack_cases hx with ⟨⟨s, hunpack⟩, hzero⟩ | ⟨s, m, q, hm, hunpack⟩
  · rw [hunpack, hzero, Int.floor_zero, Int.cast_zero]
    exact .of_real_eq hx hzero
  · rcases real_eq_scaled hx hunpack with ⟨hlt, -, hreal⟩
    rw [hunpack]
    dsimp only
    -- Steps of one or more leave nothing behind the point, and smaller ones are shifted out.
    by_cases hq : 0 ≤ q
    · rw [if_pos hq, hreal, floor_whole _ hq]
      exact .of_real_eq hx hreal
    · rw [if_neg hq, hreal, (floor_scaled _ (not_le.mp hq)).1]
      refine within_ofInt (lt_of_le_of_lt ?_ hlt)
      rw [Int.shiftRight_eq_div_pow]
      exact Int.abs_ediv_le_abs _ _

/-- What is behind the point of a double that is not negative lies on the grid.
    Large doubles have nothing there. -/
theorem onGrid_fract (hx : x.isFinite = true) (hpos : 0 ≤ real x) :
    OnGrid (Int.fract (real x)) ∧ (Int.fract (real x) = 0 ∨ ⌊real x⌋ < 2 ^ 53) := by
  rcases unpack_cases hx with ⟨-, hzero⟩ | ⟨s, m, q, hm, hunpack⟩
  · rw [hzero, Int.fract_zero]
    exact ⟨onGrid_zero, Or.inl rfl⟩
  · rcases real_eq_scaled hx hunpack with ⟨hlt, hlow, hreal⟩
    -- Again there is nothing behind the point unless the steps are smaller than one.
    by_cases hq : 0 ≤ q
    · have hfract : Int.fract (real x) = 0 := by
        rw [Int.fract, hreal, floor_whole _ hq, sub_self]
      rw [hfract]
      exact ⟨onGrid_zero, Or.inl rfl⟩
    · rcases floor_scaled (s.apply (m : ℤ)) (not_le.mp hq) with ⟨hfloor, hfract⟩
      have hk : 0 ≤ s.apply (m : ℤ) := by
        rw [hreal] at hpos
        exact_mod_cast nonneg_of_mul_nonneg_left hpos (zpow_pos two_pos q)
      rw [abs_of_nonneg hk] at hlt
      rw [hreal, hfloor, hfract]
      refine ⟨⟨_, q, ?_, hlow, rfl⟩, Or.inr ?_⟩
      · have hsplit := Int.mul_ediv_add_emod (s.apply (m : ℤ)) (2 ^ (-q).toNat)
        have hquotient : 0 ≤ 2 ^ (-q).toNat * (s.apply (m : ℤ) / 2 ^ (-q).toNat) :=
          mul_nonneg (by positivity) (Int.ediv_nonneg hk (by positivity))
        rw [abs_of_nonneg (Int.emod_nonneg _ (by positivity))]
        linarith
      · rw [Int.shiftRight_eq_div_pow]
        exact (Int.ediv_le_self _ hk).trans_lt hlt

/-- Rounding up a double that is not negative, a half being enough. -/
theorem within_roundUp (hx : x.isFinite = true) (hpos : 0 ≤ real x) :
    Within (Scalar.roundUp x) ⌊real x + 1 / 2⌋ ⌊real x + 1 / 2⌋ := by
  have hfloor := within_floor hx
  rcases onGrid_fract hx hpos with ⟨hgrid, hsmall⟩
  have hfract := Int.fract_lt_one (real x)
  have hnonneg := Int.fract_nonneg (real x)
  have hsplit := Int.floor_add_fract (real x)
  -- What is behind the point is computed exactly, and so is its comparison with a half.
  have hrest : Within (x - floor x) (Int.fract (real x)) (Int.fract (real x)) := by
    have hsub := rounds_sub hx hfloor.isFinite
    rw [hfloor.real_eq] at hsub
    refine hsub.exact ⟨hgrid, ?_⟩
    change |Int.fract (real x)| < limit
    rw [abs_of_nonneg hnonneg, limit_eq]
    exact hfract.trans (one_lt_pow₀ one_lt_two (by decide))
  have hhalf : x - floor x < 0.5 ↔ Int.fract (real x) < 1 / 2 := by
    rw [lt_iff_real hrest.isFinite within_half.isFinite, hrest.real_eq, within_half.real_eq]
  unfold Scalar.roundUp
  change Within (if x - floor x < 0.5 then floor x else floor x + 1.0) _ _
  by_cases h : Int.fract (real x) < 1 / 2
  · have hwhole : ⌊real x + 1 / 2⌋ = ⌊real x⌋ := by
      rw [Int.floor_eq_iff]
      exact ⟨by linarith, by linarith⟩
    rw [if_pos (hhalf.mpr h), hwhole]
    exact hfloor
  · have hwhole : ⌊real x + 1 / 2⌋ = ⌊real x⌋ + 1 := by
      rw [Int.floor_eq_iff]
      push_cast
      exact ⟨by linarith, by linarith⟩
    have hlt : ⌊real x⌋ < 2 ^ 53 := hsmall.resolve_left (by intro hzero; linarith)
    have hfloor0 : 0 ≤ ⌊real x⌋ := Int.floor_nonneg.mpr hpos
    have hle : |⌊real x⌋ + 1| ≤ 2 ^ 53 := by
      rw [abs_of_nonneg (by omega)]
      omega
    have hadd := rounds_add hfloor.isFinite within_one.isFinite
    have hsum : (⌊real x⌋ : ℝ) + 1 = ((⌊real x⌋ + 1 : ℤ) : ℝ) := by
      push_cast
      rfl
    rw [hfloor.real_eq, within_one.real_eq, hsum] at hadd
    rw [if_neg (mt hhalf.mp h), hwhole]
    exact hadd.exact (fits_intCast hle)

/-- A double is rounded as its value is. -/
theorem within_round (hx : x.isFinite = true) :
    Within (Scalar.round x) (Exact.nearest (real x)) (Exact.nearest (real x)) := by
  -- The sign is tested in doubles, and the same as that of the value.
  have hneg : x < 0.0 ↔ real x < 0 := by
    rw [lt_iff_real hx within_zero.isFinite, within_zero.real_eq]
  unfold Scalar.round Exact.nearest
  change Within (if x < 0.0 then -Scalar.roundUp (-x) else Scalar.roundUp x) _ _
  by_cases h : real x < 0
  · have hopposite : Within (-x) (-real x) (-real x) := (Within.self hx).neg
    have hup := (within_roundUp hopposite.isFinite (by rw [hopposite.real_eq]; linarith)).neg
    rw [hopposite.real_eq] at hup
    rw [if_pos (hneg.mpr h), if_pos h]
    push_cast
    exact hup
  · rw [if_neg (mt hneg.mp h), if_neg h]
    exact within_roundUp hx (not_lt.mp h)

theorem apply_mul (s : Sign) (a b : ℤ) : s.apply (a * b) = s.apply a * b := by
  cases s with
  | positive => rfl
  | negative => exact (neg_mul a b).symm

theorem apply_apply (s : Sign) (a : ℤ) : s.apply (s.apply a) = a := by
  cases s with
  | positive => rfl
  | negative => exact neg_neg a

/-- A whole double is cut to its value, as far as the bounds go. -/
theorem toInt_of_whole {lo hi k : ℤ} (h : Within x k k) :
    Scalar.toInt lo hi x = max lo (min hi k) := by
  change toInt lo hi x = _
  unfold toInt
  rcases unpack_cases h.isFinite with ⟨⟨s, hunpack⟩, hzero⟩ | ⟨s, m, q, hm, hunpack⟩
  · rw [h.real_eq] at hzero
    rw [hunpack, Int.cast_eq_zero.mp hzero]
  · rcases real_eq_scaled h.isFinite hunpack with ⟨-, -, hreal⟩
    rw [h.real_eq] at hreal
    rw [hunpack]
    dsimp only
    by_cases hq : 0 ≤ q
    · have hk : k = s.apply ((m <<< q.toNat : ℕ) : ℤ) := by
        rw [two_zpow_of_nonneg hq] at hreal
        rw [Nat.shiftLeft_eq]
        push_cast
        rw [apply_mul]
        exact_mod_cast hreal
      rw [if_pos hq, ← hk]
    -- The mantissa is a multiple of the power of two that it is shifted by.
    · have hk : s.apply (m : ℤ) = k * 2 ^ (-q).toNat := by
        have hone : (2 : ℝ) ^ q * 2 ^ (-q) = 1 := by
          rw [← zpow_add₀ two_ne_zero, add_neg_cancel, zpow_zero]
        have hscaled : (s.apply (m : ℤ) : ℝ) = k * 2 ^ (-q) := by
          rw [hreal, mul_assoc, hone, mul_one]
        rw [two_zpow_of_nonneg (by omega)] at hscaled
        exact_mod_cast hscaled
      have hshift : ((m >>> (-q).toNat : ℕ) : ℤ) = s.apply k := by
        rw [Nat.shiftRight_eq_div_pow, Int.natCast_ediv, ← apply_apply s (m : ℤ), hk, apply_mul]
        push_cast
        exact Int.mul_ediv_cancel _ (by positivity)
      rw [if_neg hq, hshift, apply_apply]

end Rounding

/-! ### Powers of ten -/

section Powers

/-- A product of natural numbers is exact if it has up to 53 bits. -/
theorem Within.mul_nat {x y : Float} {m n : ℕ} (hx : Within x m m) (hy : Within y n n)
    (hle : m * n ≤ 2 ^ 53) : Within (x * y) (m * n : ℕ) (m * n : ℕ) :=
  hx.mul_exact hy (Nat.cast_mul m n).symm (fits_natCast hle)

/-- Powers of natural numbers are exact if they have up to 53 bits. All of the
    numbers on the way are divisors of the power, and no larger. -/
theorem within_powFrom (n : ℕ) : ∀ {r a : Float} {i j : ℕ}, Within r i i → Within a j j →
    0 < i → 0 < j → i * j ^ n ≤ 2 ^ 53 →
    Within (Scalar.powFrom r a n) (i * j ^ n : ℕ) (i * j ^ n : ℕ) := by
  induction n using Nat.strong_induction_on with
  | _ n ih =>
    intro r a i j hr ha hi hj hle
    rw [Scalar.powFrom]
    by_cases h : n < 2
    · rw [dif_pos h]
      have hcases : n = 0 ∨ n = 1 := by omega
      rcases hcases with rfl | rfl
      · rw [if_neg (by decide), pow_zero, mul_one]
        exact hr
      · rw [pow_one] at hle ⊢
        exact hr.mul_nat ha hle
    · rw [dif_neg h]
      -- The square is one of the divisors, so it is below the bound as well.
      have hsquare : j * j ≤ j ^ n := by
        rw [← sq]
        exact Nat.pow_le_pow_right hj (not_lt.mp h)
      have hself : j ≤ j ^ n := Nat.le_self_pow (by omega) j
      have ha' := ha.mul_nat ha (hsquare.trans ((Nat.le_mul_of_pos_left _ hi).trans hle))
      by_cases hodd : n % 2 = 1
      · -- An odd exponent has one factor more, which goes to the result before the square.
        have hpower : i * j * (j * j) ^ (n / 2) = i * j ^ n := by
          have hn : n = 2 * (n / 2) + 1 := by omega
          conv_rhs => rw [hn, pow_succ, pow_mul, sq]
          ring
        have hr' := hr.mul_nat ha ((Nat.mul_le_mul_left i hself).trans hle)
        rw [if_pos hodd, ← hpower]
        exact ih (n / 2) (by omega) hr' ha' (Nat.mul_pos hi hj) (Nat.mul_pos hj hj)
          (hpower.trans_le hle)
      · have hpower : i * (j * j) ^ (n / 2) = i * j ^ n := by
          have hn : n = 2 * (n / 2) := by omega
          conv_rhs => rw [hn, pow_mul, sq]
        rw [if_neg hodd, ← hpower]
        exact ih (n / 2) (by omega) hr ha' hi (Nat.mul_pos hj hj) (hpower.trans_le hle)

/-- Powers of ten are exact up to the fifteenth. -/
theorem within_pow_ten {p : ℕ} (hp : p ≤ 15) :
    Within (Scalar.pow 10.0 (p : ℤ)) (10 ^ p : ℕ) (10 ^ p : ℕ) := by
  have hten : Within (10.0 : Float) (10 : ℕ) (10 : ℕ) := by
    have hunpack : (10.0 : Float).toModel.unpack =
        .finite .positive (5 * 2 ^ 50) (-49) (by decide) := by rfl
    refine .of_real_eq (by rfl) ?_
    rw [real_of_unpack hunpack, signed]
    norm_num
  have hone : Within (1.0 : Float) (1 : ℕ) (1 : ℕ) := by
    rw [Nat.cast_one]
    exact within_one
  -- Ten to the fifteenth has 50 bits.
  have hle : 1 * 10 ^ p ≤ 2 ^ 53 := by
    rw [one_mul]
    exact (Nat.pow_le_pow_right (by decide) hp).trans (by decide)
  have hpower := within_powFrom p hone hten (by decide) (by decide) hle
  rw [one_mul] at hpower
  unfold Scalar.pow
  dsimp only
  rw [if_neg (by omega), Int.natAbs_natCast]
  exact hpower

end Powers

end Double

end Retime
