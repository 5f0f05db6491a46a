import Mathlib
import Retime.Proofs.Nearest

/-!
# The Values of Doubles

Doubles as real numbers, and what the operations on them compute.

A finite double has a value, and doubles are compared as their values are. The
value of a sum, a difference, a product or a quotient is the exact one, rounded to
the nearest point of the grid, if there is room for that in a double. There is if
it lies below `2 ^ 1024`, and otherwise the result is infinite.

What is mostly used of this is weaker and does not mention rounding. An exact
result that lies between two doubles is rounded to something between them, as
rounding does not pass a point of the grid.

How the parts of a double are packed into its bits is proved in the library. It is
imported whole, as none of its modules brings these lemmas along.

## Main definitions

* `Double.real`: The value of a double.
* `Double.Fits`: A number that is the value of a double.
* `Double.Within`: A double between two bounds.
* `Double.Rounds`: A double that a real number is rounded to.

## Theorems

* `Double.unpack_pack`: Packing loses nothing of what there is room for.
* `Double.eq_of_unpack_eq`: A double is determined by its parts.
* `Double.lt_iff_real`, `Double.le_iff_real`: Doubles compare as their values do.
* `Double.Rounds.between`: Results lie between what they are rounded from.
* `Double.rounds_add`, `Double.rounds_sub`, `Double.rounds_mul`,
  `Double.rounds_div`: The operations round the exact result.
* `Double.real_sub_mono`: Differences keep the order.
* `Double.real_sub_pos`: The difference of two doubles is not rounded to zero.
-/

namespace Retime

namespace Double

open Float.Model Float.Model.UnpackedFloat

/-! ### Packing -/

section Packing

variable {b : BitVec Format.binary64.numBits}

/-- What is unpacked is canonical. -/
theorem canonical_unpack (h : (UnpackedFloat.unpack _ b).isFinite = true) :
    Canonical (UnpackedFloat.unpack _ b) := by
  have hbias : ((Format.binary64.exponentBias : Nat) : Int) = 1023 := rfl
  have hbits : (Format.binary64.mantissaBitsWithoutImplicit : Int) = 52 := rfl
  have hshort : (unpackMantissa b).toNat < 2 ^ 52 := BitVec.isLt _
  unfold UnpackedFloat.unpack at h ⊢
  dsimp only at h ⊢
  by_cases hmax : unpackExponent b = -1#11
  · rw [if_pos hmax] at h
    split at h
    · cases h
    · cases h
  · rw [if_neg hmax]
    -- With the smallest exponent the mantissa is what is stored, with any other it has
    -- the bit that is not, and so its full length.
    by_cases hzero : unpackExponent b = 0#11
    · have hnone : (unpackExponent b).toNat = 0 := congrArg BitVec.toNat hzero
      rw [if_pos hzero]
      split
      · exact .zero
      · exact .finite (by omega) (by omega) (Or.inl (by omega))
    · have hsome : (unpackExponent b).toNat ≠ 0 := fun h => hzero (BitVec.eq_of_toNat_eq h)
      have hlong : 2 ^ 52 ≤ (1#1 ++ unpackMantissa b).toNat := by
        rw [BitVec.toNat_append]
        exact Nat.left_le_or
      rw [if_neg hzero]
      exact .finite (BitVec.isLt _) (by omega) (Or.inr hlong)

/-- A packed double with an exponent that is neither the smallest nor the largest
    has one bit more than is stored. -/
theorem unpack_normal (s : Sign) {e : BitVec 11} {m : BitVec 52} (hzero : e ≠ 0#11)
    (hmax : e ≠ -1#11) (hpos : 0 < 2 ^ 52 + m.toNat) :
    UnpackedFloat.unpack _ (packComponents Format.binary64 s e m) =
      .finite s (2 ^ 52 + m.toNat) (e.toNat - 1075) hpos := by
  -- The bit that is not stored stands above all those that are.
  have hlong : (1#1 ++ m).toNat = 2 ^ 52 + m.toNat := by
    rw [BitVec.toNat_append, ← Nat.shiftLeft_add_eq_or_of_lt m.isLt]
    rfl
  have hsign : Sign.ofBitVec (unpackSign (packComponents Format.binary64 s e m)) = s := by
    rw [unpackSign_packComponents, Sign.ofBitVec_toBitVec]
  unfold UnpackedFloat.unpack
  dsimp only
  rw [unpackExponent_packComponents, if_neg hmax, if_neg hzero, UnpackedFloat.finite.injEq]
  refine ⟨hsign, ?_, rfl⟩
  rw [unpackMantissa_packComponents]
  exact hlong

/-- One with the smallest has what is stored. -/
theorem unpack_subnormal (s : Sign) {m : BitVec 52} (hpos : 0 < m.toNat) :
    UnpackedFloat.unpack _ (packComponents Format.binary64 s 0#11 m) =
      .finite s m.toNat (-1074) hpos := by
  have hsign : Sign.ofBitVec (unpackSign (packComponents Format.binary64 s 0#11 m)) = s := by
    rw [unpackSign_packComponents, Sign.ofBitVec_toBitVec]
  have hne : unpackMantissa (packComponents Format.binary64 s 0#11 m) ≠ 0#52 := by
    rw [unpackMantissa_packComponents]
    intro h
    rw [h] at hpos
    exact absurd hpos (by decide)
  unfold UnpackedFloat.unpack
  dsimp only
  rw [unpackExponent_packComponents, if_neg (by decide), if_pos rfl, dif_neg hne,
    UnpackedFloat.finite.injEq]
  refine ⟨hsign, ?_, rfl⟩
  rw [unpackMantissa_packComponents]

theorem log2_eq_iff_long {m : Nat} (hlt : m < 2 ^ 53) (hpos : 0 < m) :
    m.log2 + 1 = 53 ↔ 2 ^ 52 ≤ m := by
  have hlog : m.log2 < 53 := (Nat.log2_lt (Nat.ne_of_gt hpos)).mpr hlt
  rw [← Nat.le_log2 (Nat.ne_of_gt hpos)]
  omega

/-- Packing loses nothing of what there is room for. -/
theorem unpack_pack {u : UnpackedFloat} (hu : Canonical u) (h : Under 1024 u) :
    (Float.Model.pack u).unpack = u := by
  change UnpackedFloat.unpack _ (UnpackedFloat.pack Format.binary64 u) = u
  cases hu with
  | zero => exact unpack_packedZero
  | @finite s m e hpos hlt hlow hshort =>
      cases h with
      | finite _ hhigh =>
          rw [pack_finite, if_neg (by omega)]
          by_cases hlong : 2 ^ 52 ≤ m
          -- The first bit is not stored, and comes back.
          · have hstored : (BitVec.ofNat 52 m).toNat = m - 2 ^ 52 := by
              rw [BitVec.toNat_ofNat, Nat.mod_eq_sub_mod hlong, Nat.mod_eq_of_lt (by omega)]
            have hexp : (BitVec.ofNat 11 (e + 1023 + 52).toNat).toNat = (e + 1023 + 52).toNat := by
              rw [BitVec.toNat_ofNat, Nat.mod_eq_of_lt (by omega)]
            rw [if_pos ((log2_eq_iff_long hlt hpos).mpr hlong),
              unpack_normal s ?_ ?_ (by omega), UnpackedFloat.finite.injEq]
            · refine ⟨rfl, ?_, ?_⟩
              · omega
              · omega
            · intro hzero
              have hnone : (BitVec.ofNat 11 (e + 1023 + 52).toNat).toNat = 0 :=
                congrArg BitVec.toNat hzero
              omega
            · intro hmax
              have hall : (BitVec.ofNat 11 (e + 1023 + 52).toNat).toNat = 2047 :=
                congrArg BitVec.toNat hmax
              omega
          · have hstored : (BitVec.ofNat 52 m).toNat = m := by
              rw [BitVec.toNat_ofNat, Nat.mod_eq_of_lt (by omega)]
            rw [if_neg (mt (log2_eq_iff_long hlt hpos).mp hlong),
              unpack_subnormal s (by omega), UnpackedFloat.finite.injEq]
            exact ⟨rfl, hstored, by omega⟩

/-- A double is determined by its parts. -/
theorem eq_of_unpack_eq {x y : Float} (h : x.toModel.unpack = y.toModel.unpack) : x = y := by
  have hbits : ∀ f : Float.Model, UnpackedFloat.pack Format.binary64 f.unpack = f.toBits.toBitVec :=
    fun f => pack_unpack_of_valid f.valid
  rcases x with ⟨⟨⟨b⟩, hb⟩⟩
  rcases y with ⟨⟨⟨c⟩, hc⟩⟩
  have hbc : b = c := by
    have heq := congrArg (UnpackedFloat.pack Format.binary64) h
    rw [hbits, hbits] at heq
    exact heq
  subst hbc
  rfl

/-- What there is no room for becomes infinite. -/
theorem unpack_pack_overflow {u : UnpackedFloat} (hu : Canonical u) (h : ¬ Under 1024 u) :
    ∃ s, (Float.Model.pack u).unpack = .infinity s := by
  cases hu with
  | zero => exact absurd .zero h
  | @finite s m e hpos hlt hlow hshort =>
      have hlog : m.log2 < 53 := (Nat.log2_lt (Nat.ne_of_gt hpos)).mpr hlt
      -- A mantissa is shorter than 54 bits, so it is the exponent that leaves no room.
      have hhigh : 971 < e := by
        by_contra hle
        exact h (.finite (by unfold totalExponent; omega) (by omega))
      refine ⟨s, ?_⟩
      change UnpackedFloat.unpack _ (UnpackedFloat.pack Format.binary64 _) = .infinity s
      rw [pack_finite, if_pos (by omega), unpack_packedInfinity]

theorem not_isFinite_pack {u : UnpackedFloat} (hu : Canonical u) (h : ¬ Under 1024 u) :
    (Float.Model.pack u).unpack.isFinite = false := by
  rcases unpack_pack_overflow hu h with ⟨s, hs⟩
  rw [hs]
  rfl

/-- What is rounded is a number, if only an infinite one. -/
theorem not_isNaN_pack {u : UnpackedFloat} (hu : Canonical u) :
    (Float.Model.pack u).unpack.isNaN = false := by
  by_cases h : Under 1024 u
  · rw [unpack_pack hu h]
    cases hu with
    | zero | finite => rfl
  · rcases unpack_pack_overflow hu h with ⟨s, hs⟩
    rw [hs]
    rfl

end Packing

/-! ### Values -/

/-- The power of two that all finite doubles lie below. -/
noncomputable def limit : ℝ := ((2 ^ 1024 : ℕ) : ℝ)

theorem limit_eq : limit = 2 ^ 1024 := by
  unfold limit
  rw [Nat.cast_pow, Nat.cast_ofNat]

/-- A canonical double lies below it if its value does. -/
theorem under_iff_value {u : UnpackedFloat} (hu : Canonical u) :
    Under 1024 u ↔ |value u| < limit := by
  have hsize : ∀ (s : Sign) (m : ℕ) (e : ℤ), |signed s (m * 2 ^ e)| = m * 2 ^ e := by
    intro s m e
    have hnonneg : (0 : ℝ) ≤ m * 2 ^ e := by positivity
    cases s with
    | positive => exact abs_of_nonneg hnonneg
    | negative => exact (abs_neg _).trans (abs_of_nonneg hnonneg)
  have hpower : limit = 2 ^ 53 * 2 ^ (971 : ℤ) := by
    rw [limit_eq, ← zpow_natCast, ← zpow_natCast, ← zpow_add₀ two_ne_zero]
    norm_num
  cases hu with
  | zero => simp [Under.zero, value, limit_eq]
  | @finite s m e hpos hlt hlow hshort =>
      have hlog : m.log2 < 53 := (Nat.log2_lt (Nat.ne_of_gt hpos)).mpr hlt
      rw [value_finite, hsize, hpower]
      constructor
      · intro h
        cases h with
        | finite _ hhigh =>
            have hm : (m : ℝ) < 2 ^ 53 := by exact_mod_cast hlt
            have hexp : (2 : ℝ) ^ e ≤ 2 ^ (971 : ℤ) := zpow_le_zpow_right₀ one_le_two (by omega)
            calc (m : ℝ) * 2 ^ e < 2 ^ 53 * 2 ^ e :=
                  mul_lt_mul_of_pos_right hm (zpow_pos two_pos e)
              _ ≤ 2 ^ 53 * 2 ^ (971 : ℤ) := mul_le_mul_of_nonneg_left hexp (by positivity)
      · intro h
        have hhigh : e ≤ 971 := by
          by_contra hlarge
          -- With a larger exponent the mantissa would have all of its bits.
          have hm : (2 : ℝ) ^ 52 ≤ m := by
            have hlong : 2 ^ 52 ≤ m := hshort.resolve_left (by omega)
            exact_mod_cast hlong
          have hexp : (2 : ℝ) ^ (972 : ℤ) ≤ 2 ^ e := zpow_le_zpow_right₀ one_le_two (by omega)
          have hnext : (2 : ℝ) ^ (972 : ℤ) = 2 ^ (971 : ℤ) * 2 := zpow_add_one₀ two_ne_zero 971
          have hle : (2 : ℝ) ^ 52 * 2 ^ (972 : ℤ) ≤ m * 2 ^ e :=
            mul_le_mul hm hexp (by positivity) (by positivity)
          rw [hnext] at hle
          linarith
        exact .finite (by unfold totalExponent; omega) (by omega)

/-- The value of a double. What is not finite counts as zero. -/
noncomputable def real (x : Float) : ℝ := value x.toModel.unpack

theorem canonical_of_isFinite {x : Float} (h : x.isFinite = true) : Canonical x.toModel.unpack :=
  canonical_unpack h

/-- The values of doubles lie on the grid. -/
theorem onGrid_of_canonical {u : UnpackedFloat} (hu : Canonical u) : OnGrid (value u) := by
  cases hu with
  | zero => exact onGrid_zero
  | @finite s m e hpos hlt hlow hshort =>
      have hgrid : OnGrid ((m : ℝ) * 2 ^ e) := by
        refine ⟨m, e, ?_, hlow, rfl⟩
        rw [abs_of_nonneg (Nat.cast_nonneg m)]
        exact_mod_cast hlt.le
      cases s with
      | positive => exact hgrid
      | negative => exact hgrid.neg

theorem onGrid_real {x : Float} (h : x.isFinite = true) : OnGrid (real x) :=
  onGrid_of_canonical (canonical_of_isFinite h)

theorem abs_real_lt {x : Float} (h : x.isFinite = true) : |real x| < limit :=
  (under_iff_value (canonical_of_isFinite h)).mp (under_of_isFinite h)

/-! ### Comparison -/

/-- The exponent decides before the mantissa. -/
theorem scaled_lt {m n : Nat} {e q : Int} (hm : m < 2 ^ 53) (hn : q = -1074 ∨ 2 ^ 52 ≤ n)
    (he : -1074 ≤ e) (h : e < q ∨ e = q ∧ m < n) : (m : ℝ) * 2 ^ e < n * 2 ^ q := by
  rcases h with h | ⟨rfl, h⟩
  · have hm' : (m : ℝ) < 2 ^ 53 := by exact_mod_cast hm
    have hn' : (2 : ℝ) ^ 52 ≤ n := by exact_mod_cast hn.resolve_left (by omega)
    have hnext : (2 : ℝ) ^ (e + 1) = 2 ^ e * 2 := zpow_add_one₀ two_ne_zero e
    have hexp : (2 : ℝ) ^ (e + 1) ≤ 2 ^ q := zpow_le_zpow_right₀ one_le_two (by omega)
    calc (m : ℝ) * 2 ^ e < 2 ^ 53 * 2 ^ e := mul_lt_mul_of_pos_right hm' (zpow_pos two_pos e)
      _ = 2 ^ 52 * 2 ^ (e + 1) := by rw [hnext]; ring
      _ ≤ n * 2 ^ q := mul_le_mul hn' hexp (by positivity) (by positivity)
  · exact mul_lt_mul_of_pos_right (Nat.cast_lt.mpr h) (zpow_pos two_pos e)

/-- A lower rank has a smaller value. -/
theorem value_lt_of_below {u v : UnpackedFloat} (hu : Canonical u) (hv : Canonical v)
    (h : (rank u).Below (rank v)) : value u < value v := by
  have hpos : ∀ {m : ℕ} (e : ℤ), 0 < m → (0 : ℝ) < m * 2 ^ e := fun e hm =>
    mul_pos (Nat.cast_pos.mpr hm) (zpow_pos two_pos e)
  cases hu with
  | zero =>
      cases hv with
      | zero => simp [rank, Rank.Below] at h
      | @finite s m e hm =>
          cases s with
          | positive => exact hpos e hm
          | negative => simp [rank, Rank.Below] at h
  | @finite s m e hm hlt hlow hshort =>
      cases hv with
      | zero =>
          cases s with
          | positive => simp [rank, Rank.Below] at h
          | negative => exact neg_lt_zero.mpr (hpos e hm)
      | @finite t n q hn hlt' hlow' hshort' =>
          -- With one sign the exponents and mantissas decide, and with two the signs do.
          cases s with
          | positive =>
              cases t with
              | positive =>
                  simp only [rank, Rank.Below] at h
                  exact scaled_lt hlt hshort' hlow (by omega)
              | negative => simp [rank, Rank.Below] at h
          | negative =>
              cases t with
              | positive => exact (neg_lt_zero.mpr (hpos e hm)).trans (hpos q hn)
              | negative =>
                  simp only [rank, Rank.Below] at h
                  exact neg_lt_neg (scaled_lt hlt' hshort hlow' (by omega))

/-- Doubles of one rank are the same, or both are zero. -/
theorem eq_of_rank {u v : UnpackedFloat} (hu : Canonical u) (hv : Canonical v)
    (h : rank u = rank v) : u = v ∨ value u = 0 ∧ value v = 0 := by
  cases hu with
  | zero =>
      cases hv with
      | zero => exact Or.inr ⟨rfl, rfl⟩
      | @finite s m e hm =>
          cases s with
          | positive | negative => simp [rank] at h
  | @finite s m e hm =>
      cases hv with
      | zero =>
          cases s with
          | positive | negative => simp [rank] at h
      | @finite t n q hn =>
          cases s with
          | positive =>
              cases t with
              | positive =>
                  -- With the same sign the exponents and mantissas are those of the ranks.
                  simp only [rank, Rank.mk.injEq, true_and, Nat.cast_inj] at h
                  obtain ⟨rfl, rfl⟩ := h
                  exact Or.inl rfl
              | negative => simp [rank] at h
          | negative =>
              cases t with
              | positive => simp [rank] at h
              | negative =>
                  simp only [rank, Rank.mk.injEq, true_and, neg_inj, Nat.cast_inj] at h
                  obtain ⟨rfl, rfl⟩ := h
                  exact Or.inl rfl

theorem Rank.eq_of_not_below {a b : Rank} (h : ¬ a.Below b) (hback : ¬ b.Below a) : a = b := by
  obtain ⟨k, q, n⟩ := a
  obtain ⟨k', q', n'⟩ := b
  simp only [Rank.Below] at h hback
  rw [Rank.mk.injEq]
  omega

theorem below_iff_value {u v : UnpackedFloat} (hu : Canonical u) (hv : Canonical v) :
    (rank u).Below (rank v) ↔ value u < value v := by
  refine ⟨value_lt_of_below hu hv, fun h => ?_⟩
  by_contra hnot
  by_cases hback : (rank v).Below (rank u)
  · exact lt_asymm h (value_lt_of_below hv hu hback)
  · rcases eq_of_rank hu hv (Rank.eq_of_not_below hnot hback) with rfl | ⟨hzero, hzero'⟩
    · exact h.ne rfl
    · rw [hzero, hzero'] at h
      exact h.ne rfl

/-- Doubles of one value are the same, unless it is zero. -/
theorem Canonical.eq_of_value {u v : UnpackedFloat} (hu : Canonical u) (hv : Canonical v)
    (h : value u = value v) (hne : value u ≠ 0) : u = v := by
  have hrank : rank u = rank v :=
    Rank.eq_of_not_below (mt (below_iff_value hu hv).mp h.not_lt)
      (mt (below_iff_value hv hu).mp h.not_gt)
  exact (eq_of_rank hu hv hrank).resolve_right fun hzero => hne hzero.1

section Comparison

variable {x y : Float}

/-- A finite double that is not zero is determined by its value. -/
theorem eq_of_real_eq (hx : x.isFinite = true) (hy : y.isFinite = true) (h : real x = real y)
    (hne : real x ≠ 0) : x = y :=
  eq_of_unpack_eq ((canonical_of_isFinite hx).eq_of_value (canonical_of_isFinite hy) h hne)

theorem numbers_of_isFinite (hx : x.isFinite = true) (hy : y.isFinite = true) : Numbers x y :=
  (numbers_iff x y).mpr ⟨not_isNaN_of_isFinite hx, not_isNaN_of_isFinite hy⟩

/-- Doubles compare as their values do. -/
theorem lt_iff_real (hx : x.isFinite = true) (hy : y.isFinite = true) :
    x < y ↔ real x < real y := by
  rw [lt_iff, below_iff_value (canonical_of_isFinite hx) (canonical_of_isFinite hy)]
  exact and_iff_right (numbers_of_isFinite hx hy)

theorem le_iff_real (hx : x.isFinite = true) (hy : y.isFinite = true) :
    x ≤ y ↔ real x ≤ real y := by
  rw [le_iff, below_iff_value (canonical_of_isFinite hy) (canonical_of_isFinite hx), not_lt]
  exact and_iff_right (numbers_of_isFinite hx hy)

theorem beq_iff_real (hx : x.isFinite = true) (hy : y.isFinite = true) :
    (x == y) = true ↔ real x = real y := by
  have hnan : (x.toModel.unpack.isNaN || y.toModel.unpack.isNaN) = false :=
    numbers_of_isFinite hx hy
  have hcompare : (x == y) = true ↔
      (rank x.toModel.unpack).compare (rank y.toModel.unpack) = .eq := by
    change (x.toModel.unpack.compare y.toModel.unpack == some .eq) = true ↔ _
    rw [compare_eq, hnan, beq_iff_eq, if_neg Bool.false_ne_true, Option.some_inj]
  -- Neither is less than the other, in rank as in value.
  have hlt := below_iff_value (canonical_of_isFinite hx) (canonical_of_isFinite hy)
  have hgt := below_iff_value (canonical_of_isFinite hy) (canonical_of_isFinite hx)
  rw [← Rank.compare_eq_lt] at hlt
  rw [← Rank.compare_eq_gt] at hgt
  rw [hcompare]
  constructor
  · intro heq
    rw [heq] at hlt hgt
    exact le_antisymm (not_lt.mp fun h => nomatch hgt.mpr h) (not_lt.mp fun h => nomatch hlt.mpr h)
  · intro heq
    cases h : (rank x.toModel.unpack).compare (rank y.toModel.unpack) with
    | eq => rfl
    | lt => exact absurd heq (hlt.mp h).ne
    | gt => exact absurd heq (hgt.mp h).ne'

end Comparison

/-! ### Bounds -/

/-- A number that is the value of a double. -/
structure Fits (a : ℝ) : Prop where
  onGrid : OnGrid a
  small : |a| < limit

theorem fits_real {x : Float} (h : x.isFinite = true) : Fits (real x) :=
  ⟨onGrid_real h, abs_real_lt h⟩

theorem Fits.neg {a : ℝ} (h : Fits a) : Fits (-a) := by
  refine ⟨h.onGrid.neg, ?_⟩
  rw [abs_neg]
  exact h.small

theorem fits_intCast {k : ℤ} (h : |k| ≤ 2 ^ 53) : Fits k := by
  refine ⟨onGrid_intCast h, lt_of_le_of_lt (b := (2 : ℝ) ^ 53) ?_ ?_⟩
  · exact_mod_cast h
  · rw [limit_eq]
    exact pow_lt_pow_right₀ one_lt_two (by decide)

theorem fits_natCast {n : ℕ} (h : n ≤ 2 ^ 53) : Fits n := by
  rw [← Int.cast_natCast]
  refine fits_intCast ?_
  rw [Nat.abs_cast]
  exact_mod_cast h

theorem fits_zpow {k : ℤ} (hlow : -1074 ≤ k) (hhigh : k < 1024) : Fits (2 ^ k) := by
  refine ⟨⟨1, k, by decide, hlow, by rw [Int.cast_one, one_mul]⟩, ?_⟩
  rw [abs_of_pos (zpow_pos two_pos k), limit_eq, ← zpow_natCast]
  exact zpow_lt_zpow_right₀ one_lt_two hhigh

/-- Half of a number can be had as well, unless it is very small. -/
theorem Fits.half {a : ℝ} (h : Fits a) (hlarge : 2 ^ (-1021 : ℤ) < |a|) : Fits (a / 2) := by
  rcases h with ⟨⟨k, q, hk, hq, rfl⟩, hsmall⟩
  have hk' : |(k : ℝ)| ≤ 2 ^ (53 : ℤ) := by exact_mod_cast hk
  -- With the smallest exponent all numbers are as small as that, so there is a smaller one.
  have hq' : -1074 ≠ q := by
    rintro rfl
    have hbound : |(k : ℝ) * 2 ^ (-1074 : ℤ)| ≤ 2 ^ (53 : ℤ) * 2 ^ (-1074 : ℤ) := by
      rw [abs_mul, abs_of_pos (zpow_pos (two_pos (α := ℝ)) (-1074))]
      exact mul_le_mul_of_nonneg_right hk' (zpow_pos two_pos _).le
    rw [← zpow_add₀ two_ne_zero] at hbound
    exact absurd hlarge (not_lt.mpr hbound)
  refine ⟨⟨k, q - 1, hk, by omega, ?_⟩, ?_⟩
  · rw [zpow_sub_one₀ two_ne_zero]
    ring
  · rw [abs_div, abs_two]
    linarith [abs_nonneg ((k : ℝ) * 2 ^ q)]

/-- A double between two bounds. -/
structure Within (x : Float) (a b : ℝ) : Prop where
  isFinite : x.isFinite = true
  low : a ≤ real x
  high : real x ≤ b

namespace Within

variable {x : Float} {a b : ℝ}

theorem self (h : x.isFinite = true) : Within x (real x) (real x) :=
  ⟨h, le_rfl, le_rfl⟩

theorem real_eq (h : Within x a a) : real x = a :=
  le_antisymm h.high h.low

theorem fits (h : Within x a a) : Fits a := by
  rw [← h.real_eq]
  exact fits_real h.isFinite

theorem of_real_eq (h : x.isFinite = true) (hreal : real x = a) : Within x a a :=
  ⟨h, hreal.ge, hreal.le⟩

end Within

/-! ### Rounded results -/

/-- A double that a real number is rounded to. It is finite if the nearest point
    of the grid lies below the limit, and that point is then its value. -/
def Rounds (x : ℝ) (r : Float) : Prop :=
  ∃ w, Nearest x w ∧ (r.isFinite = true ↔ |w| < limit) ∧ (r.isFinite = true → real r = w)

namespace Rounds

variable {x a b : ℝ} {r : Float}

theorem nearest (h : Rounds x r) (hr : r.isFinite = true) : Nearest x (real r) := by
  rcases h with ⟨w, hw, -, hreal⟩
  rw [hreal hr]
  exact hw

/-- What is rounded from between the values of two doubles lies between them. -/
theorem between (h : Rounds x r) (ha : Fits a) (hb : Fits b) (hax : a ≤ x) (hxb : x ≤ b) :
    Within r a b := by
  rcases h with ⟨w, hw, hfinite, hreal⟩
  have haw := hw.le_of_le ha.onGrid hax
  have hwb := hw.le_of_ge hb.onGrid hxb
  have hlow := (abs_lt.mp ha.small).1
  have hhigh := (abs_lt.mp hb.small).2
  have hr : r.isFinite = true := hfinite.mpr (abs_lt.mpr ⟨by linarith, by linarith⟩)
  rw [← hreal hr] at haw hwb
  exact ⟨hr, haw, hwb⟩

/-- The value of a double is not changed. -/
theorem exact (h : Rounds x r) (hx : Fits x) : Within r x x :=
  h.between hx hx le_rfl le_rfl

end Rounds

/-- What is packed and finite has lost nothing. -/
theorem under_of_isFinite_pack {u : UnpackedFloat} (hu : Canonical u)
    (h : (⟨Float.Model.pack u⟩ : Float).isFinite = true) : Under 1024 u := by
  by_contra hover
  rw [show (⟨Float.Model.pack u⟩ : Float).isFinite = false from not_isFinite_pack hu hover] at h
  cases h

theorem real_pack {u : UnpackedFloat} (hu : Canonical u)
    (h : (⟨Float.Model.pack u⟩ : Float).isFinite = true) :
    real ⟨Float.Model.pack u⟩ = value u :=
  congrArg value (unpack_pack hu (under_of_isFinite_pack hu h))

theorem rounds_pack {x : ℝ} {u : UnpackedFloat} (hu : Canonical u ∧ Nearest x (value u)) :
    Rounds x ⟨Float.Model.pack u⟩ := by
  refine ⟨value u, hu.2, ?_, real_pack hu.1⟩
  rw [← under_iff_value hu.1]
  exact ⟨under_of_isFinite_pack hu.1, isFinite_of_under⟩

/-! ### Operations -/

section Operations

theorem le_log2_shiftLeft {m : Nat} (hm : 0 < m) (n : Nat) : m.log2 + n ≤ (m <<< n).log2 := by
  have hpos : 0 < m <<< n := by
    rw [Nat.shiftLeft_eq]
    positivity
  rw [Nat.le_log2 (Nat.ne_of_gt hpos), Nat.shiftLeft_eq, Nat.pow_add]
  exact Nat.mul_le_mul_right _ (Nat.log2_self_le (Nat.ne_of_gt hm))

/-- A longer mantissa with a smaller exponent is the same number. -/
theorem shiftLeft_scaled (m : Nat) {e q : Int} (h : q ≤ e) :
    ((m <<< (e - q).toNat : ℕ) : ℝ) * 2 ^ q = m * 2 ^ e := by
  have hexp : e = ((e - q).toNat : ℤ) + q := by omega
  rw [Nat.shiftLeft_eq]
  conv_rhs => rw [hexp, zpow_add₀ two_ne_zero, zpow_natCast]
  push_cast
  ring

/-- Rounding with a mantissa of any length goes to the nearest point. -/
theorem nearest_unpackedRound (s : Sign) {m : Nat} (e : Int) (hm : 0 < m) :
    Canonical (UnpackedFloat.round Format.binary64 s m e) ∧
      Nearest (signed s (m * 2 ^ e)) (value (UnpackedFloat.round Format.binary64 s m e)) := by
  have hlog := le_log2_shiftLeft hm (e - target m e).toNat
  have hexp : e - ((e - target m e).toNat : Int) ≤ target m e := by omega
  -- Shifting by what is missing leaves the exponent at what the result will have, or below.
  have htarget : e - ((e - target m e).toNat : Int) ≤
      target (m <<< (e - target m e).toNat) (e - ((e - target m e).toNat : Int)) := by
    have hle : target m e ≤
        target (m <<< (e - target m e).toNat) (e - ((e - target m e).toNat : Int)) := by
      unfold target totalExponent at hlog ⊢
      omega
    omega
  have hround := nearest_round s
    (describes_exact (m <<< (e - target m e).toNat)) htarget
  have hscale : ((m <<< (e - target m e).toNat : ℕ) : ℝ) *
      2 ^ (e - ((e - target m e).toNat : Int)) = m * 2 ^ e := by
    have hsub : (e - (e - ((e - target m e).toNat : Int))).toNat = (e - target m e).toNat := by
      omega
    have hsame := shiftLeft_scaled m (e := e) (q := e - ((e - target m e).toNat : Int)) (by omega)
    rwa [hsub] at hsame
  rw [hscale] at hround
  exact hround

/-- A whole number times a power of two is rounded to the nearest point. -/
theorem nearest_normalize (k : Int) (e : Int) (s : Sign) :
    Canonical (UnpackedFloat.normalize Format.binary64 k e s) ∧
      Nearest (k * 2 ^ e) (value (UnpackedFloat.normalize Format.binary64 k e s)) := by
  unfold UnpackedFloat.normalize
  -- The sign is taken off first, and a zero is not rounded at all.
  cases hk : compare k 0 with
  | lt =>
      have hneg : k < 0 := Int.compare_eq_lt.mp hk
      have hcast : (((-k).toNat : ℕ) : ℝ) = -(k : ℝ) := by
        rw [← Int.cast_natCast, Int.toNat_of_nonneg (by omega), Int.cast_neg]
      have hround := nearest_unpackedRound .negative e (m := (-k).toNat) (by omega)
      rw [hcast, signed, neg_mul, neg_neg] at hround
      exact hround
  | eq =>
      have hzero : k = 0 := Int.compare_eq_eq.mp hk
      rw [hzero, Int.cast_zero, zero_mul]
      exact ⟨.zero, .of_onGrid onGrid_zero⟩
  | gt =>
      have hpos : 0 < k := Int.compare_eq_gt.mp hk
      have hcast : ((k.toNat : ℕ) : ℝ) = (k : ℝ) := by
        rw [← Int.cast_natCast, Int.toNat_of_nonneg (by omega)]
      have hround := nearest_unpackedRound .positive e (m := k.toNat) (by omega)
      rw [hcast, signed] at hround
      exact hround

/-- The mantissas of two doubles over their smaller exponent. -/
theorem aligned_value (s : Sign) (m : Nat) {e q : Int} (h : q ≤ e) :
    ((s.apply (m <<< (e - q).toNat : ℕ) : ℤ) : ℝ) * 2 ^ q = signed s (m * 2 ^ e) := by
  rw [apply_cast, signed_mul, Int.cast_natCast, shiftLeft_scaled m h]

/-- What is canonical has been rounded. -/
theorem nearest_self {x : ℝ} {u : UnpackedFloat} (hu : Canonical u) (hx : x = value u) :
    Canonical u ∧ Nearest x (value u) := by
  rw [hx]
  exact ⟨hu, .of_onGrid (onGrid_of_canonical hu)⟩

theorem nearest_add {u v : UnpackedFloat} (hu : Canonical u) (hv : Canonical v) :
    Canonical (UnpackedFloat.add Format.binary64 u v) ∧
      Nearest (value u + value v) (value (UnpackedFloat.add Format.binary64 u v)) := by
  cases hu with
  | @zero s =>
      cases hv with
      | @zero t =>
          have hzero : ∀ b : Bool, Canonical (if b then .zero s else .zero .positive) ∧
              Nearest (0 + 0) (value (if b then .zero s else .zero .positive)) := by
            intro b
            cases b with
            | true | false => exact nearest_self .zero (zero_add 0)
          exact hzero (s == t)
      | finite hlt hlow hshort => exact nearest_self (.finite hlt hlow hshort) (zero_add _)
  | @finite s m e hm hlt hlow hshort =>
      cases hv with
      | zero => exact nearest_self (.finite hlt hlow hshort) (add_zero _)
      -- The mantissas are added over the smaller exponent.
      | @finite t n q hn hlt' hlow' hshort' =>
          have hsum : ((s.apply (m <<< (e - min e q).toNat : ℕ) +
              t.apply (n <<< (q - min e q).toNat : ℕ) : ℤ) : ℝ) * 2 ^ min e q =
              signed s (m * 2 ^ e) + signed t (n * 2 ^ q) := by
            rw [Int.cast_add, add_mul, aligned_value s m (min_le_left e q),
              aligned_value t n (min_le_right e q)]
          have hround := nearest_normalize (s.apply (m <<< (e - min e q).toNat : ℕ) +
            t.apply (n <<< (q - min e q).toNat : ℕ)) (min e q) .positive
          rw [hsum] at hround
          exact hround

theorem value_neg (u : UnpackedFloat) : value u.neg = -value u := by
  rcases u with _ | _ | _ | ⟨s, m, e, hm⟩
  case finite =>
    cases s with
    | positive => rfl
    | negative => exact (neg_neg _).symm
  all_goals exact neg_zero.symm

theorem Canonical.neg {u : UnpackedFloat} (hu : Canonical u) : Canonical u.neg := by
  cases hu with
  | zero => exact .zero
  | finite hlt hlow hshort => exact .finite hlt hlow hshort

/-- Taking away is adding the opposite. -/
theorem unpackedSub_eq (u v : UnpackedFloat) :
    UnpackedFloat.sub Format.binary64 u v = UnpackedFloat.add Format.binary64 u v.neg := by
  rcases u with s | _ | s | ⟨s, m, e, hm⟩
  all_goals rcases v with t | _ | t | ⟨t, n, q, hn⟩
  case finite.finite =>
    -- Only for two finite numbers is there something to show, which is that the sign of
    -- the second is turned.
    have happly : ∀ k : ℤ, (-t).apply k = -t.apply k := by
      intro k
      cases t with
      | positive => rfl
      | negative => exact (neg_neg k).symm
    simp only [UnpackedFloat.sub, UnpackedFloat.add, UnpackedFloat.neg, happly, Int.sub_eq_add_neg]
  all_goals rfl

theorem log2_mul_ge {m n : Nat} (hm : 2 ^ 52 ≤ m) (hn : 0 < n) : 52 ≤ (m * n).log2 := by
  have hle : 2 ^ 52 ≤ m * n := hm.trans (Nat.le_mul_of_pos_right m hn)
  exact (Nat.le_log2 (by omega)).mpr hle

/-- A product is as long as its longer factor, or has the smallest exponents. -/
theorem le_target_mul {m n : Nat} {e q : Int} (hm : 0 < m) (hn : 0 < n)
    (he : e = -1074 ∨ 2 ^ 52 ≤ m) (hq : q = -1074 ∨ 2 ^ 52 ≤ n) :
    e + q ≤ target (m * n) (e + q) := by
  have hlong : 2 ^ 52 ≤ m ∨ 2 ^ 52 ≤ n → 52 ≤ (m * n).log2 := by
    rintro (h | h)
    · exact log2_mul_ge h hn
    · rw [Nat.mul_comm]
      exact log2_mul_ge h hm
  unfold target totalExponent
  omega

theorem signed_mul_signed (s t : Sign) (m n : ℕ) (e q : ℤ) :
    signed (s * t) (((m * n : ℕ) : ℝ) * 2 ^ (e + q)) =
      signed s (m * 2 ^ e) * signed t (n * 2 ^ q) := by
  have hscale : ((m * n : ℕ) : ℝ) * 2 ^ (e + q) = m * 2 ^ e * (n * 2 ^ q) := by
    rw [zpow_add₀ two_ne_zero]
    push_cast
    ring
  rw [hscale]
  -- The product of two signs is negative just if one of them is.
  cases s with
  | positive =>
      cases t with
      | positive => rfl
      | negative => exact (mul_neg _ _).symm
  | negative =>
      cases t with
      | positive => exact (neg_mul _ _).symm
      | negative => exact (neg_mul_neg _ _).symm

theorem nearest_mul {u v : UnpackedFloat} (hu : Canonical u) (hv : Canonical v) :
    Canonical (UnpackedFloat.mul Format.binary64 u v) ∧
      Nearest (value u * value v) (value (UnpackedFloat.mul Format.binary64 u v)) := by
  cases hu with
  | zero =>
      cases hv with
      | zero => exact nearest_self .zero (zero_mul _)
      | finite => exact nearest_self .zero (zero_mul _)
  | @finite s m e hm hlt hlow hshort =>
      cases hv with
      | zero => exact nearest_self .zero (mul_zero _)
      | @finite t n q hn hlt' hlow' hshort' =>
          -- The mantissas are multiplied in full, which is long enough to be rounded once.
          have hround := nearest_round (s * t) (describes_exact (m * n))
            (le_target_mul hm hn hshort hshort')
          rw [signed_mul_signed] at hround
          exact hround

/-- A quotient is computed to the length of a mantissa, unless the exponent is the
    smallest. -/
theorem le_target_div {m n : Nat} {e q : Int} (hm : 0 < m) (hn : 0 < n) :
    let t := min (e - q) (Format.binary64.targetExponent (totalExponent m e - totalExponent n q))
    t ≤ target (m <<< (e - q - t).toNat / n) t := by
  intro t
  have ht : t = min (e - q) (max (totalExponent m e - totalExponent n q - 53) (-1074)) := rfl
  clear_value t
  by_cases hsmall : t ≤ -1074
  · exact hsmall.trans (le_max_right _ _)
  · -- The dividend is shifted until it is 52 bits longer than the divisor, so that the
    -- quotient fills a mantissa.
    have hlong : 2 ^ 52 ≤ m <<< (e - q - t).toNat / n := by
      have hlog : 52 + (n.log2 + 1) ≤ m.log2 + (e - q - t).toNat := by
        unfold totalExponent at ht
        omega
      rw [Nat.le_div_iff_mul_le hn, Nat.shiftLeft_eq]
      calc 2 ^ 52 * n ≤ 2 ^ 52 * 2 ^ (n.log2 + 1) :=
            Nat.mul_le_mul_left _ (Nat.le_of_lt Nat.lt_log2_self)
        _ ≤ 2 ^ m.log2 * 2 ^ (e - q - t).toNat := by
            rw [← Nat.pow_add, ← Nat.pow_add]
            exact Nat.pow_le_pow_right two_pos hlog
        _ ≤ m * 2 ^ (e - q - t).toNat :=
            Nat.mul_le_mul_right _ (Nat.log2_self_le (Nat.ne_of_gt hm))
    have hlog := (Nat.le_log2 (by omega)).mpr hlong
    unfold target totalExponent
    omega

theorem nearest_div {u v : UnpackedFloat} (hu : Canonical u) (hv : Canonical v)
    (hne : value v ≠ 0) :
    Canonical (UnpackedFloat.div Format.binary64 u v) ∧
      Nearest (value u / value v) (value (UnpackedFloat.div Format.binary64 u v)) := by
  cases hv with
  | zero => exact absurd rfl hne
  | @finite t n q hn hlt' hlow' hshort' =>
      cases hu with
      | zero => exact nearest_self .zero (zero_div _)
      | @finite s m e hm hlt hlow hshort =>
          have htarget := le_target_div (e := e) (q := q) hm hn
          generalize hr : min (e - q)
            (Format.binary64.targetExponent (totalExponent m e - totalExponent n q)) = r at htarget
          have hround := nearest_round (s / t)
            (describes_quotient (m <<< (e - q - r).toNat) hn) htarget
          -- The shift of the mantissa is undone by the exponent of the quotient.
          have hquotient : signed (s / t) (((m <<< (e - q - r).toNat : ℕ) : ℝ) / n * 2 ^ r) =
              signed s (m * 2 ^ e) / signed t (n * 2 ^ q) := by
            have hscale : ((m <<< (e - q - r).toNat : ℕ) : ℝ) / n * 2 ^ r =
                m * 2 ^ e / (n * 2 ^ q) := by
              rw [div_mul_eq_mul_div, shiftLeft_scaled m (by omega), zpow_sub₀ two_ne_zero,
                mul_div_assoc', div_div, mul_comm (2 ^ q : ℝ)]
            rw [hscale]
            cases s with
            | positive =>
                cases t with
                | positive => rfl
                | negative => exact (div_neg _).symm
            | negative =>
                cases t with
                | positive => exact (neg_div _ _).symm
                | negative => exact (neg_div_neg_eq _ _).symm
          rw [hquotient] at hround
          have hdiv : UnpackedFloat.div Format.binary64 (.finite s m e hm) (.finite t n q hn) =
              roundWithAccuracy Format.binary64 (s / t) (m <<< (e - q - r).toNat / n) r
                (accuracyOfFraction (m <<< (e - q - r).toNat % n) n) := by
            simp only [UnpackedFloat.div, divCore, hr]
          rw [hdiv]
          exact hround

end Operations

section Results

variable {x y : Float}

theorem rounds_add (hx : x.isFinite = true) (hy : y.isFinite = true) :
    Rounds (real x + real y) (x + y) :=
  rounds_pack (nearest_add (canonical_of_isFinite hx) (canonical_of_isFinite hy))

theorem rounds_sub (hx : x.isFinite = true) (hy : y.isFinite = true) :
    Rounds (real x - real y) (x - y) := by
  have hadd := nearest_add (canonical_of_isFinite hx) (canonical_of_isFinite hy).neg
  rw [← unpackedSub_eq, value_neg, ← sub_eq_add_neg] at hadd
  exact rounds_pack hadd

theorem rounds_mul (hx : x.isFinite = true) (hy : y.isFinite = true) :
    Rounds (real x * real y) (x * y) :=
  rounds_pack (nearest_mul (canonical_of_isFinite hx) (canonical_of_isFinite hy))

theorem rounds_div (hx : x.isFinite = true) (hy : y.isFinite = true) (hne : real y ≠ 0) :
    Rounds (real x / real y) (x / y) :=
  rounds_pack (nearest_div (canonical_of_isFinite hx) (canonical_of_isFinite hy) hne)

/-- The difference of two finite doubles is a number. -/
theorem not_isNaN_sub (hx : x.isFinite = true) (hy : y.isFinite = true) :
    (x - y).toModel.unpack.isNaN = false := by
  have hadd := nearest_add (canonical_of_isFinite hx) (canonical_of_isFinite hy).neg
  rw [← unpackedSub_eq] at hadd
  exact not_isNaN_pack hadd.1

/-- Doubles of one value leave the same of any other. -/
theorem real_sub_congr {z : Float} (hx : x.isFinite = true) (hy : y.isFinite = true)
    (hz : z.isFinite = true) (h : real x = real y) :
    (x - z).isFinite = (y - z).isFinite ∧ real (x - z) = real (y - z) := by
  by_cases hzero : real x = 0
  -- A zero of either sign leaves the opposite.
  · have hleft : ∀ {w : Float}, w.isFinite = true → real w = 0 →
        Within (w - z) (-real z) (-real z) := by
      intro w hw hnone
      have hsub := rounds_sub hw hz
      rw [hnone, zero_sub] at hsub
      exact hsub.exact (fits_real hz).neg
    have hsubx := hleft hx hzero
    have hsuby := hleft hy (h.symm.trans hzero)
    exact ⟨hsubx.isFinite.trans hsuby.isFinite.symm, hsubx.real_eq.trans hsuby.real_eq.symm⟩
  · rw [eq_of_real_eq hx hy h hzero]
    exact ⟨rfl, rfl⟩

/-- And the same times any other. -/
theorem real_mul_congr {z : Float} (hx : x.isFinite = true) (hy : y.isFinite = true)
    (hz : z.isFinite = true) (h : real x = real y) : real (x * z) = real (y * z) := by
  by_cases hzero : real x = 0
  · -- Two zeros may have different signs, but a product with either is zero.
    have hnone : ∀ {w : Float}, w.isFinite = true → real w = 0 → real (w * z) = 0 := by
      intro w hw hnone
      have hmul := rounds_mul hw hz
      rw [hnone, zero_mul] at hmul
      have hfits := fits_natCast (Nat.zero_le (2 ^ 53))
      rw [Nat.cast_zero] at hfits
      exact (hmul.exact hfits).real_eq
    rw [hnone hx hzero, hnone hy (h.symm.trans hzero)]
  · rw [eq_of_real_eq hx hy h hzero]

/-- What is taken from a larger double leaves no less. -/
theorem real_sub_mono {z : Float} (hx : x.isFinite = true) (hy : y.isFinite = true)
    (hz : z.isFinite = true) (hxz : (x - z).isFinite = true) (hyz : (y - z).isFinite = true)
    (h : real x ≤ real y) : real (x - z) ≤ real (y - z) := by
  rcases h.lt_or_eq with hlt | heq
  · exact ((rounds_sub hx hz).nearest hxz).le_of_lt ((rounds_sub hy hz).nearest hyz)
      (by linarith)
  · exact (real_sub_congr hx hy hz heq).2.le

/-- A larger double leaves something of a smaller one. Their values are whole
    multiples of the smallest there is, so they are at least that far apart. -/
theorem real_sub_pos (hx : x.isFinite = true) (hy : y.isFinite = true)
    (hxy : (x - y).isFinite = true) (h : real y < real x) : 0 < real (x - y) := by
  rcases (onGrid_real hx).exists_multiple with ⟨m, hm⟩
  rcases (onGrid_real hy).exists_multiple with ⟨n, hn⟩
  have hunit : (0 : ℝ) < 2 ^ (-1074 : ℤ) := zpow_pos two_pos _
  rw [hm, hn, mul_lt_mul_iff_of_pos_right hunit, Int.cast_lt] at h
  -- Two whole numbers that differ are one apart at least.
  have hone : (1 : ℝ) ≤ m - n := by exact_mod_cast (by omega : 1 ≤ m - n)
  have hfar : (2 : ℝ) ^ (-1074 : ℤ) ≤ real x - real y := by
    rw [hm, hn, ← sub_mul]
    exact le_mul_of_one_le_left hunit.le hone
  exact hunit.trans_le
    (((rounds_sub hx hy).nearest hxy).le_of_le (fits_zpow (by decide) (by decide)).onGrid hfar)

end Results

end Double

end Retime
