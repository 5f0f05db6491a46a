import Mathlib.Algebra.Group.Nat.Defs
import Retime.Proofs.Order

/-!
# The Size of Doubles

Which operations keep a double finite.

How large a double is, is measured in binary: `Under k` says that it lies below
`2 ^ k` and that its mantissa is long enough for its exponent to show it.
Rounding raises this by one at most. So a sum of bounds tells that a product
does not overflow, and a double that is divided by ten or more gets smaller
even after it is rounded.

## Main definitions

* `Double.Under`: A double below a power of two.
* `Double.AtLeastEight`: A double that a quotient gets smaller by.

## Theorems

* `Double.under_round`: What rounding does to the bound.
* `Double.isFinite_of_under`, `Double.under_of_isFinite`: The finite doubles are
  those below `2 ^ 1024`.
* `Double.isFinite_div`: A finite double over ten is finite.
* `Double.isFinite_ofInt`: Whole numbers of up to 64 bits are finite.
* `Double.sub_self_eq_zero`: A finite double is nothing away from itself.
-/

namespace Retime

namespace Double

open Float.Model Float.Model.UnpackedFloat

/-- A double below a power of two, with a mantissa that is long enough. -/
inductive Under (k : Int) : UnpackedFloat → Prop
  | zero {s : Sign} : Under k (.zero s)
  | finite {s : Sign} {m : Nat} {e : Int} {h : 0 < m} :
      totalExponent m e ≤ k → e ≤ k - 53 → Under k (.finite s m e h)

instance (k : Int) : DecidablePred (Under k)
  | .zero _ => isTrue .zero
  | .finite _ m e _ =>
      decidable_of_iff (totalExponent m e ≤ k ∧ e ≤ k - 53)
        ⟨fun h => .finite h.1 h.2, fun | .finite h he => ⟨h, he⟩⟩
  | .infinity _ | .notANumber => isFalse nofun

theorem targetExponent_eq (t : Int) :
    Format.binary64.targetExponent t = max (t - 53) (-1074) := rfl

section Rounding

theorem mantissa_shiftRight (x : ExtendedMantissa) (n : Nat) :
    (x >>> n).mantissa = x.mantissa / 2 ^ n := by
  induction n with
  | zero => exact (Nat.div_one _).symm
  | succ n ih =>
      change (x >>> n).mantissa / 2 = _
      rw [ih, Nat.div_div_eq_div_mul, Nat.pow_succ]

theorem mantissa_ofAccuracy (m : Nat) (a : Accuracy) :
    (ExtendedMantissa.ofMantissaAndAccuracy m a).mantissa = m := by
  rcases a with _ | _ | _ | _ <;> rfl

theorem roundedMantissa_le (x : ExtendedMantissa) : x.roundedMantissa ≤ x.mantissa + 1 := by
  unfold ExtendedMantissa.roundedMantissa Accuracy.roundToNearestEven
  split <;> omega

theorem log2_div_le (m n : Nat) (h : m / 2 ^ n ≠ 0) : (m / 2 ^ n).log2 + n ≤ m.log2 := by
  have hm : m ≠ 0 := by
    rintro rfl
    exact h (Nat.zero_div _)
  rw [Nat.le_log2 hm, Nat.pow_add]
  exact Nat.le_trans (Nat.mul_le_mul_right _ (Nat.log2_self_le h)) (Nat.div_mul_le_self m _)

theorem log2_le_succ {m n : Nat} (h : m ≤ n + 1) : m.log2 ≤ n.log2 + 1 := by
  rcases Nat.eq_zero_or_pos m with rfl | hm
  · exact Nat.zero_le _
  · rw [← Nat.lt_succ_iff, Nat.log2_lt (Nat.ne_of_gt hm), Nat.pow_succ]
    have hn := Nat.lt_log2_self (n := n)
    omega

/-- Bringing a mantissa to its length leaves the bound. -/
theorem shift_under {k e : Int} {m : Nat} (a : Accuracy) (hk : 0 ≤ k)
    (h : totalExponent m e ≤ k) (he : e ≤ k - 53) :
    let r := shiftToTargetExponent Format.binary64 m e a
    totalExponent r.1.mantissa r.2 ≤ k ∧ r.2 ≤ k - 53 := by
  have htarget := targetExponent_eq (totalExponent m e)
  have hdiv := log2_div_le m (Format.binary64.targetExponent (totalExponent m e) - e).toNat
  simp only [shiftToTargetExponent, shiftToExponent, mantissa_shiftRight, mantissa_ofAccuracy]
  generalize Format.binary64.targetExponent (totalExponent m e) = t at htarget hdiv
  simp only [totalExponent] at *
  by_cases hzero : m / 2 ^ (t - e).toNat = 0
  -- What is shifted out entirely has only its exponent left.
  · rw [hzero, Nat.log2_zero]
    omega
  · have := hdiv hzero
    omega

/-- Rounding raises the bound by one at most. -/
theorem under_round {k e : Int} {m : Nat} (s : Sign) (a : Accuracy) (hk : 0 ≤ k)
    (h : totalExponent m e ≤ k) (he : e ≤ k - 53) :
    Under (k + 1) (roundWithAccuracy Format.binary64 s m e a) := by
  have hfirst := shift_under a hk h he
  have hrounded := roundedMantissa_le (shiftToTargetExponent Format.binary64 m e a).1
  unfold roundWithAccuracy
  generalize shiftToTargetExponent Format.binary64 m e a = r at hfirst hrounded
  have hlog := log2_le_succ hrounded
  -- Rounding up may carry into a new bit, so there is a second shift.
  have hsecond := shift_under (k := k + 1) (m := r.1.roundedMantissa) (e := r.2) .exact (by omega)
    (by simp only [totalExponent] at hfirst ⊢; omega) (by omega)
  dsimp only
  generalize shiftToTargetExponent Format.binary64 r.1.roundedMantissa r.2 .exact = t at hsecond
  by_cases hzero : t.1.mantissa = 0
  · rw [dif_pos hzero]
    exact .zero
  · rw [dif_neg hzero]
    exact .finite hsecond.1 hsecond.2

end Rounding

theorem Under.mono {j k : Int} {u : UnpackedFloat} (h : Under j u) (hjk : j ≤ k) : Under k u := by
  cases h with
  | zero => exact .zero
  | finite h he => exact .finite (Int.le_trans h hjk) (by omega)

theorem Under.isFinite {k : Int} {u : UnpackedFloat} (h : Under k u) : u.isFinite = true := by
  cases h with
  | zero | finite => rfl

section Packing

variable {b : BitVec Format.binary64.numBits}

/-- The exponent of a packed double bounds it, unless it is the largest. -/
theorem under_unpack (h : unpackExponent b ≠ -1#11) :
    Under (max ((unpackExponent b).toNat : Int) 1 - 1022) (UnpackedFloat.unpack _ b) := by
  have hshort : ∀ n : Nat, n < 2 ^ 53 → n.log2 ≤ 52 := by
    intro n hn
    rcases Nat.eq_zero_or_pos n with rfl | hpos
    · exact Nat.zero_le _
    · exact Nat.lt_succ_iff.mp ((Nat.log2_lt (Nat.ne_of_gt hpos)).mpr hn)
  have hbias : ((Format.binary64.exponentBias : Nat) : Int) = 1023 := rfl
  unfold UnpackedFloat.unpack
  dsimp only
  rw [if_neg h]
  by_cases hzero : unpackExponent b = 0#11
  -- Below the normal doubles the exponent counts as one, and a bit is missing.
  · have hnone : (unpackExponent b).toNat = 0 := congrArg BitVec.toNat hzero
    have hlt : (unpackMantissa b).toNat < 2 ^ 52 := BitVec.isLt _
    have := hshort _ (Nat.lt_trans hlt (by decide))
    rw [if_pos hzero]
    by_cases hnothing : unpackMantissa b = 0#52
    · rw [dif_pos hnothing]
      exact .zero
    · rw [dif_neg hnothing]
      exact .finite (by simp only [totalExponent, hbias]; omega) (by omega)
  -- A normal double has all of its bits.
  · have := hshort _ (1#1 ++ unpackMantissa b).isLt
    rw [if_neg hzero]
    exact .finite (by simp only [totalExponent, hbias]; omega) (by omega)

/-- How a number that is neither zero nor infinite is packed. The first bit of a
    mantissa is not stored if it has all bits. -/
theorem pack_finite (s : Sign) (m : Nat) (e : Int) (hm : 0 < m) :
    UnpackedFloat.pack Format.binary64 (.finite s m e hm) =
      if 2 ^ 11 ≤ (e + 1023 + 52).toNat + 1 then packedInfinity Format.binary64 s
      else if m.log2 + 1 = 53 then
        packComponents Format.binary64 s (BitVec.ofNat 11 (e + 1023 + 52).toNat) (BitVec.ofNat 52 m)
      else packComponents Format.binary64 s 0#11 (BitVec.ofNat 52 m) := rfl

/-- A bound is kept by packing, if it is one of doubles. -/
theorem under_pack {k : Int} {u : UnpackedFloat} (hk : 0 ≤ k) (hmax : k ≤ 1024) (h : Under k u) :
    Under k (Float.Model.pack u).unpack := by
  change Under k (UnpackedFloat.unpack _ (UnpackedFloat.pack Format.binary64 u))
  -- Sign and mantissa do not matter, the bound is that of the exponent.
  have hpack : ∀ (s : Sign) (e : BitVec 11) (m : BitVec 52), (e.toNat : Int) ≤ k + 1022 →
      Under k (UnpackedFloat.unpack _ (packComponents Format.binary64 s e m)) := by
    intro s e m he
    have hunpack := under_unpack (b := packComponents Format.binary64 s e m)
    rw [unpackExponent_packComponents] at hunpack
    refine (hunpack fun h => ?_).mono (by omega)
    rw [h] at he
    have hval : (-1#11).toNat = 2 ^ 11 - 1 := rfl
    rw [hval] at he
    omega
  cases h with
  | @zero s => exact hpack s 0 0 (by rw [BitVec.ofNat_eq_ofNat, BitVec.toNat_zero]; omega)
  | @finite s m e hm h hlow =>
      have he : (e + 1023 + 52).toNat + 1 < 2 ^ 11 := by omega
      -- The exponent is below the largest, so no infinity is packed.
      rw [pack_finite, if_neg (Nat.not_le.mpr he)]
      split
      · refine hpack _ _ _ ?_
        rw [BitVec.toNat_ofNat, Nat.mod_eq_of_lt (by omega)]
        omega
      · exact hpack _ _ _ (by rw [BitVec.toNat_zero]; omega)

/-- What is below `2 ^ 1024` is packed as a finite double. -/
theorem isFinite_of_under {u : UnpackedFloat} (h : Under 1024 u) :
    (⟨Float.Model.pack u⟩ : Float).isFinite = true :=
  (under_pack (by decide) (by decide) h).isFinite

theorem under_of_unpack_isFinite (h : (UnpackedFloat.unpack _ b).isFinite = true) :
    Under 1024 (UnpackedFloat.unpack _ b) := by
  -- The largest exponent is kept for what is not finite.
  have hexp : unpackExponent b ≠ -1#11 := by
    intro hmax
    unfold UnpackedFloat.unpack at h
    dsimp only at h
    rw [if_pos hmax] at h
    split at h <;> cases h
  have hlt : (unpackExponent b).toNat < 2 ^ 11 := BitVec.isLt _
  have hne : (unpackExponent b).toNat ≠ 2 ^ 11 - 1 := fun h => hexp (BitVec.eq_of_toNat_eq h)
  exact (under_unpack hexp).mono (by omega)

/-- Every finite double is below `2 ^ 1024`. -/
theorem under_of_isFinite {x : Float} (h : x.isFinite = true) : Under 1024 x.toModel.unpack :=
  under_of_unpack_isFinite h

end Packing

/-- Eight or more. -/
inductive AtLeastEight : UnpackedFloat → Prop
  | infinity {s : Sign} : AtLeastEight (.infinity s)
  | finite {s : Sign} {m : Nat} {e : Int} {h : 0 < m} :
      4 ≤ totalExponent m e → AtLeastEight (.finite s m e h)

instance : DecidablePred AtLeastEight
  | .infinity _ => isTrue .infinity
  | .finite _ m e _ =>
      decidable_of_iff (4 ≤ totalExponent m e) ⟨.finite, fun | .finite h => h⟩
  | .zero _ | .notANumber => isFalse nofun

/-- A quotient has as many bits as its two parts differ in, or one more. -/
theorem log2_shiftLeft_div_le {m n d : Nat} (hd : 0 < d) (h : m <<< n / d ≠ 0) :
    (m <<< n / d).log2 + d.log2 ≤ m.log2 + n := by
  have hle : 2 ^ ((m <<< n / d).log2 + d.log2) ≤ m <<< n := by
    rw [Nat.pow_add]
    exact Nat.le_trans
      (Nat.mul_le_mul (Nat.log2_self_le h) (Nat.log2_self_le (Nat.ne_of_gt hd)))
      (Nat.div_mul_le_self _ _)
  have hlt : m <<< n < 2 ^ (m.log2 + 1 + n) := by
    rw [Nat.shiftLeft_eq, Nat.pow_add]
    exact Nat.mul_lt_mul_of_pos_right Nat.lt_log2_self (Nat.two_pow_pos n)
  have := (Nat.pow_lt_pow_iff_right (by decide)).mp (Nat.lt_of_le_of_lt hle hlt)
  omega

/-- A quotient by eight or more is smaller, also when it has been rounded. -/
theorem under_div {k : Int} {u v : UnpackedFloat} (hk : 3 ≤ k) (hu : Under k u)
    (hv : AtLeastEight v) : Under (k - 2) (UnpackedFloat.div Format.binary64 u v) := by
  match u, v, hu, hv with
  | .zero _, .finite _ _ _ _, _, _ | .zero _, .infinity _, _, _ => exact .zero
  | .finite _ _ _ _, .infinity _, _, _ => exact .zero
  | .finite s₁ m₁ e₁ h₁, .finite s₂ m₂ e₂ h₂, .finite hu hlow, .finite hv =>
      have hround : k - 2 = k - 3 + 1 := by omega
      have htarget := targetExponent_eq (totalExponent m₁ e₁ - totalExponent m₂ e₂)
      dsimp only [UnpackedFloat.div, divCore]
      generalize Format.binary64.targetExponent (totalExponent m₁ e₁ - totalExponent m₂ e₂) = t
        at htarget
      -- The quotient has lost three bits, and rounding may give one back.
      rw [hround]
      refine under_round _ _ (by omega) ?_ (by omega)
      have hlog := log2_shiftLeft_div_le (n := (e₁ - e₂ - min (e₁ - e₂) t).toNat) (m := m₁) h₂
      generalize m₁ <<< (e₁ - e₂ - min (e₁ - e₂) t).toNat / m₂ = q at hlog
      simp only [totalExponent] at *
      by_cases hquot : q = 0
      · rw [hquot, Nat.log2_zero]
        omega
      · have := hlog hquot
        omega

section Large

theorem log2_div_eq {m : Nat} (h : 52 ≤ m.log2) : (m / 2 ^ (m.log2 - 52)).log2 = 52 := by
  have hm : m ≠ 0 := by
    rintro rfl
    exact absurd h (by decide)
  have hlow : 2 ^ 52 * 2 ^ (m.log2 - 52) ≤ m := by
    rw [← Nat.pow_add, Nat.add_sub_cancel' h]
    exact Nat.log2_self_le hm
  have hhigh : m < 2 ^ 53 * 2 ^ (m.log2 - 52) := by
    rw [← Nat.pow_add, Nat.add_comm, ← Nat.sub_add_comm h]
    exact Nat.lt_log2_self
  have hle := (Nat.le_div_iff_mul_le (Nat.two_pow_pos _)).mpr hlow
  rw [Nat.log2_eq_iff (Nat.ne_of_gt (Nat.lt_of_lt_of_le (Nat.two_pow_pos 52) hle))]
  exact ⟨hle, (Nat.div_lt_iff_lt_mul (Nat.two_pow_pos _)).mpr hhigh⟩

/-- A mantissa that is long is brought to its length and keeps its size. -/
theorem shift_long {m : Nat} {e : Int} (a : Accuracy) (hm : 52 ≤ m.log2)
    (h : 4 ≤ totalExponent m e) :
    (shiftToTargetExponent Format.binary64 m e a).1.mantissa.log2 = 52 ∧
      4 ≤ totalExponent (shiftToTargetExponent Format.binary64 m e a).1.mantissa
        (shiftToTargetExponent Format.binary64 m e a).2 := by
  simp only [shiftToTargetExponent, shiftToExponent, mantissa_shiftRight, mantissa_ofAccuracy,
    targetExponent_eq]
  simp only [totalExponent] at *
  have hamount : (max (m.log2 + 1 + e - 53) (-1074) - e).toNat = m.log2 - 52 := by omega
  rw [hamount, log2_div_eq hm]
  omega

theorem le_roundedMantissa (x : ExtendedMantissa) : x.mantissa ≤ x.roundedMantissa := by
  unfold ExtendedMantissa.roundedMantissa Accuracy.roundToNearestEven
  split <;> omega

theorem log2_mono {m n : Nat} (hm : m ≠ 0) (h : m ≤ n) : m.log2 ≤ n.log2 := by
  rw [Nat.le_log2 (by omega)]
  exact Nat.le_trans (Nat.log2_self_le hm) h

/-- A long mantissa is not rounded below eight. -/
theorem round_long {m : Nat} {e : Int} (s : Sign) (a : Accuracy) (hm : 52 ≤ m.log2)
    (h : 4 ≤ totalExponent m e) :
    ∃ m' e' hpos, roundWithAccuracy Format.binary64 s m e a = .finite s m' e' hpos ∧
      m'.log2 = 52 ∧ 4 ≤ totalExponent m' e' := by
  have hfirst := shift_long a hm h
  have hrounded := le_roundedMantissa (shiftToTargetExponent Format.binary64 m e a).1
  unfold roundWithAccuracy
  generalize shiftToTargetExponent Format.binary64 m e a = r at hfirst hrounded
  have hne : r.1.mantissa ≠ 0 := by
    intro h
    rw [h] at hfirst
    exact absurd hfirst.1 (by decide)
  have hlog := log2_mono hne hrounded
  -- Rounding does not shorten a mantissa, so it is long before the second shift.
  have hsecond := shift_long (m := r.1.roundedMantissa) (e := r.2) .exact (by omega)
    (by simp only [totalExponent] at hfirst ⊢; omega)
  have hpos : (shiftToTargetExponent Format.binary64 r.1.roundedMantissa r.2 .exact).1.mantissa ≠
      0 := by
    intro h
    rw [h] at hsecond
    exact absurd hsecond.1 (by decide)
  dsimp only
  rw [dif_neg hpos]
  exact ⟨_, _, _, rfl, hsecond⟩

theorem unpack_packedInfinity (s : Sign) :
    UnpackedFloat.unpack _ (packedInfinity Format.binary64 s) = .infinity s := by
  cases s with
  | positive | negative => rfl

/-- A packed double whose exponent is large enough. -/
theorem atLeastEight_unpack {b : BitVec Format.binary64.numBits}
    (hmax : unpackExponent b ≠ -1#11) (h : 1026 ≤ (unpackExponent b).toNat) :
    AtLeastEight (UnpackedFloat.unpack _ b) := by
  have hbias : ((Format.binary64.exponentBias : Nat) : Int) = 1023 := rfl
  have hbits : (Format.binary64.mantissaBitsWithoutImplicit : Int) = 52 := rfl
  have hnormal : unpackExponent b ≠ 0#11 := by
    intro hzero
    have hnone : (unpackExponent b).toNat = 0 := congrArg BitVec.toNat hzero
    omega
  -- The bit that is not stored makes the mantissa of a normal double long.
  have hlong : 2 ^ 52 ≤ (1#1 ++ unpackMantissa b).toNat := by
    rw [BitVec.toNat_append]
    exact Nat.left_le_or
  have hlog : 52 ≤ (1#1 ++ unpackMantissa b).toNat.log2 := (Nat.le_log2 (by omega)).mpr hlong
  unfold UnpackedFloat.unpack
  dsimp only
  rw [if_neg hmax, if_neg hnormal]
  refine .finite ?_
  simp only [totalExponent, hbias, hbits]
  omega

/-- Nor is it packed as something smaller, though perhaps as an infinity. -/
theorem atLeastEight_pack {s : Sign} {m : Nat} {e : Int} {hpos : 0 < m} (hm : m.log2 = 52)
    (h : 4 ≤ totalExponent m e) :
    AtLeastEight (Float.Model.pack (.finite s m e hpos)).unpack := by
  change AtLeastEight (UnpackedFloat.unpack _ (UnpackedFloat.pack Format.binary64 _))
  have hlength : m.log2 + 1 = 53 := congrArg (· + 1) hm
  simp only [totalExponent] at h
  rw [pack_finite]
  -- What is too large is packed as an infinity, and that is large as well.
  by_cases hmax : 2 ^ 11 ≤ (e + 1023 + 52).toNat + 1
  · rw [if_pos hmax, unpack_packedInfinity]
    exact .infinity
  · have hexp : (BitVec.ofNat 11 (e + 1023 + 52).toNat).toNat = (e + 1023 + 52).toNat := by
      rw [BitVec.toNat_ofNat, Nat.mod_eq_of_lt (by omega)]
    rw [if_neg hmax, if_pos hlength]
    refine atLeastEight_unpack ?_ ?_
    · rw [unpackExponent_packComponents]
      intro hall
      have hval : (-1#11).toNat = 2 ^ 11 - 1 := rfl
      rw [hall, hval] at hexp
      omega
    · rw [unpackExponent_packComponents, hexp]
      omega

end Large

/-- A finite double over eight or more is finite. -/
theorem isFinite_div {x y : Float} (hx : x.isFinite = true)
    (hy : AtLeastEight y.toModel.unpack) : (x / y).isFinite = true := by
  exact isFinite_of_under
    ((under_div (by decide) (under_of_isFinite hx) hy).mono (by decide))

theorem log2_shiftLeft_le (m n : Nat) : (m <<< n).log2 ≤ m.log2 + n := by
  rcases Nat.eq_zero_or_pos (m <<< n) with h | h
  · rw [h, Nat.log2_zero]
    exact Nat.zero_le _
  · rw [← Nat.lt_succ_iff, Nat.log2_lt (Nat.ne_of_gt h), Nat.shiftLeft_eq]
    have hlt := Nat.mul_lt_mul_of_pos_right (Nat.lt_log2_self (n := m)) (Nat.two_pow_pos n)
    rw [← Nat.pow_add] at hlt
    exact Nat.lt_of_lt_of_le hlt (Nat.pow_le_pow_right (by decide) (by omega))

theorem log2_mul_le {m n : Nat} (hm : 0 < m) (hn : 0 < n) :
    (m * n).log2 ≤ m.log2 + n.log2 + 1 := by
  rw [← Nat.lt_succ_iff, Nat.log2_lt (Nat.ne_of_gt (Nat.mul_pos hm hn))]
  have hlt := Nat.mul_lt_mul'' (Nat.lt_log2_self (n := m)) (Nat.lt_log2_self (n := n))
  rw [← Nat.pow_add] at hlt
  exact Nat.lt_of_lt_of_le hlt (Nat.pow_le_pow_right (by decide) (by omega))

/-- The bounds of two factors are added. -/
theorem under_mul {j k : Int} {u v : UnpackedFloat} (hjk : 0 ≤ j + k) (hu : Under j u)
    (hv : Under k v) : Under (j + k + 1) (UnpackedFloat.mul Format.binary64 u v) := by
  match u, v, hu, hv with
  | .zero _, .zero _, _, _ | .zero _, .finite _ _ _ _, _, _ | .finite _ _ _ _, .zero _, _, _ =>
      exact .zero
  | .finite s₁ m₁ e₁ h₁, .finite s₂ m₂ e₂ h₂, .finite hu _, .finite hv _ =>
      have hlog := log2_mul_le h₁ h₂
      simp only [totalExponent] at hu hv
      exact under_round _ _ hjk (by simp only [totalExponent]; omega) (by omega)

/-- The double nearest to a natural number of up to 64 bits. -/
theorem under_ofNat {n : Nat} (hn : n < 2 ^ 64) :
    Under 65 (UnpackedFloat.ofNat Format.binary64 n) := by
  unfold UnpackedFloat.ofNat UnpackedFloat.ofInt UnpackedFloat.normalize
  split
  · next h => rw [Int.compare_eq_lt] at h; omega
  · exact .zero
  · next h =>
      rw [Int.compare_eq_gt] at h
      have hlog : n.log2 < 64 := (Nat.log2_lt (by omega)).mpr hn
      -- The mantissa is made longer, and the exponent goes down by as much.
      have hshift :=
        log2_shiftLeft_le n (0 - Format.binary64.targetExponent (totalExponent n 0)).toNat
      have htarget := targetExponent_eq (totalExponent n 0)
      simp only [UnpackedFloat.round, decreaseExponent, Int.toNat_natCast]
      generalize Format.binary64.targetExponent (totalExponent n 0) = t at hshift htarget
      simp only [totalExponent] at htarget
      exact under_round (k := 64) _ _ (by decide) (by simp only [totalExponent]; omega) (by omega)

/-- A natural number of up to 64 bits is finite as a double. -/
theorem isFinite_ofNat {n : Nat} (hn : n < 2 ^ 64) :
    Float.isFinite (Scalar.ofNat n) = true := by
  change (Float.ofScientific n false 0).isFinite = true
  unfold Float.ofScientific
  by_cases hsmall : n < 2 ^ 53 ∧ 0 ≤ 22
  -- A short number is converted and multiplied by one.
  · rw [dif_pos hsmall]
    have hone : Under 1 (Float.exactlyRepresentablePowersOfTen[0]).toModel.unpack := by decide
    have hround : Under 65 (n.toUInt64.toFloat).toModel.unpack := by
      refine under_pack (by decide) (by decide) ?_
      exact under_ofNat n.toUInt64.toBitVec.isLt
    exact isFinite_of_under ((under_mul (by decide) hround hone).mono (by decide))
  -- A long one is read as a decimal that has no places.
  · have hn0 : n ≠ 0 := by
      rintro rfl
      exact hsmall ⟨by decide, by decide⟩
    have hlog : n.log2 < 64 := (Nat.log2_lt hn0).mpr hn
    have hshift := log2_shiftLeft_le n Format.binary64.mantissaBits
    have hbits : Format.binary64.mantissaBits = 53 := rfl
    rw [dif_neg hsmall]
    refine isFinite_of_under ?_
    unfold UnpackedFloat.ofScientific
    rw [dif_neg hn0, if_neg (by decide), if_neg ?_, if_pos (by decide)]
    · exact (under_mul (j := 64) (k := 53) (by decide)
        (.finite (by simp only [totalExponent]; omega) (by omega))
        (.finite (by decide) (by decide))).mono (by decide)
    · change ¬ (0 : Int) < -(2 ^ 11 + (n.log2 : Int))
      omega

theorem isFinite_neg {x : Float} (h : x.isFinite = true) : (-x).isFinite = true := by
  have hneg : ∀ {u}, Under 1024 u → Under 1024 u.neg := by
    intro u hu
    cases hu with
    | zero => exact .zero
    | finite h he => exact .finite h he
  exact isFinite_of_under (hneg (under_of_isFinite h))

/-- A whole number of up to 64 bits is finite as a double. -/
theorem isFinite_ofInt {n : Int} (h : n.natAbs < 2 ^ 64) :
    Float.isFinite (Scalar.ofInt n) = true := by
  cases n with
  | ofNat n => exact isFinite_ofNat h
  | negSucc n => exact isFinite_neg (isFinite_ofNat h)

/-- A finite double is nothing away from itself. -/
theorem sub_self_eq_zero {x : Float} (h : x.isFinite = true) : x - x = 0.0 := by
  have hzero : ∀ {u}, Under 1024 u →
      UnpackedFloat.sub Format.binary64 u u = .zero .positive := by
    intro u hu
    cases hu with
    | @zero s =>
        cases s with
        | positive | negative => rfl
    -- The mantissas cancel before anything is rounded.
    | @finite s m e hm =>
        dsimp only [UnpackedFloat.sub]
        rw [Int.sub_self]
        rfl
  change (⟨Float.Model.pack (UnpackedFloat.sub Format.binary64 _ _)⟩ : Float) = 0.0
  rw [hzero (under_of_isFinite h)]
  decide

end Double

end Retime
