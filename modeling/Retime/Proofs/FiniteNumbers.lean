import Retime.Json.Spelling
import Retime.Proofs.DoubleSize

/-!
# Numbers That Are Read Are Finite

No spelling of a number denotes an infinity.

A spelling that is too large has no value, and the only products that are
formed on the way are asked whether they are finite. The quotients are not.
They need not be, as every power of ten that is divided by makes a double
smaller.

## Theorems

* `Spelling.powerOfTen_large`: A power of ten is ten or more.
* `Spelling.number?_isFinite`: The number that a spelling denotes is finite.
-/

namespace Retime

namespace Spelling

open Double Float.Model Float.Model.UnpackedFloat

/-- A power of ten is ten or more. -/
theorem powerOfTen_large {n : Nat} (hpos : 0 < n) (hmax : n ≤ maxExponent) :
    AtLeastEight (powerOfTen n : Float).toModel.unpack := by
  by_cases hsmall : n ≤ 22
  -- The small powers stand in a table.
  · have hall : ∀ k < 22, AtLeastEight (powerOfTen (k + 1) : Float).toModel.unpack := by
      decide +kernel
    have hn : n = n - 1 + 1 := by omega
    rw [hn]
    exact hall (n - 1) (by omega)
  · have hten : 3 ≤ (10 ^ n).log2 := by
      rw [Nat.le_log2 (Nat.ne_of_gt (Nat.pow_pos (by decide)))]
      exact Nat.le_trans (by decide) (Nat.pow_le_pow_right (by decide) hpos)
    have hlog : 56 ≤ ((1 <<< Format.binary64.mantissaBits) * 10 ^ n).log2 := by
      have hlong : (1 <<< Format.binary64.mantissaBits) = 2 ^ 53 := rfl
      rw [Nat.le_log2 (Nat.ne_of_gt (Nat.mul_pos (by decide) (Nat.pow_pos (by decide)))), hlong]
      exact Nat.mul_le_mul_left (2 ^ 53)
        ((Nat.le_log2 (Nat.ne_of_gt (Nat.pow_pos (by decide)))).mp hten)
    change AtLeastEight (Float.ofScientific 1 false n).toModel.unpack
    unfold Float.ofScientific
    rw [dif_neg (fun h => hsmall h.2)]
    have hbound : (n : Int) ≤ 308 := Int.ofNat_le.mpr hmax
    have hround : ∃ m e hpos, UnpackedFloat.ofScientific Format.binary64 1 n =
        .finite .positive m e hpos ∧ m.log2 = 52 ∧ 4 ≤ totalExponent m e := by
      unfold UnpackedFloat.ofScientific
      rw [dif_neg (by decide), if_neg (by simp; omega), if_neg (by simp; omega), if_pos (by omega)]
      have hbits : Format.binary64.mantissaBits = 53 := rfl
      refine round_long (m := (1 <<< Format.binary64.mantissaBits) * 10 ^ n) _ _ (by omega) ?_
      simp only [totalExponent]
      omega
    rcases hround with ⟨m, e, hpos, heq, hlength, hlarge⟩
    change AtLeastEight (Float.Model.pack (UnpackedFloat.ofScientific _ 1 n)).unpack
    rw [heq]
    exact atLeastEight_pack hlength hlarge

theorem shrink_isFinite {x : Float} {n : Nat} (hx : x.isFinite = true) (hn : 0 < n) :
    (shrink x n).isFinite = true := by
  fun_induction shrink x n with
  | case1 x n hle => exact isFinite_div hx (powerOfTen_large hn hle)
  | case2 => exact hx
  | case3 x n hgt _ ih =>
      exact ih (isFinite_div hx (powerOfTen_large (by decide) (Nat.le_refl _))) (by omega)

theorem scaled?_isFinite {x y : Float} {exponent : Int} (hx : x.isFinite = true)
    (h : scaled? x exponent = some y) : y.isFinite = true := by
  unfold scaled? at h
  -- Zeros stay, small exponents shrink, and large ones are checked after they were scaled.
  split at h
  · cases h
    exact hx
  · split at h
    · cases h
      exact shrink_isFinite hx (by omega)
    · split at h
      · dsimp only at h
        split at h
        · next hfinite =>
            cases h
            exact hfinite
        · cases h
      · cases h

theorem scalar?_isFinite {s : Spelling} {x : Float} (h : s.scalar? = some x) :
    x.isFinite = true := by
  unfold scalar? at h
  rcases Option.map_eq_some_iff.mp h with ⟨y, hy, rfl⟩
  have hlead : s.leading.1 < UInt64.size :=
    keep_fst_lt (keep_fst_lt (by decide) _) _
  have hfinite := scaled?_isFinite (isFinite_ofNat hlead) hy
  split
  · exact isFinite_neg hfinite
  · exact hfinite

/-- The number that a spelling denotes is finite. -/
theorem number?_isFinite {s : Spelling} {n : Number Float} (h : s.number? = some n) :
    n.toScalar.isFinite = true := by
  have hsize : UInt64.size = 2 ^ 64 := rfl
  unfold number? at h
  dsimp only at h
  generalize (if s.negative = true then -(Text.value s.whole : Int) else Text.value s.whole) = w
    at h
  -- A whole number in the range of a word becomes a finite double, and any other is
  -- checked when it is scaled.
  split at h
  · next hrange =>
      cases h
      exact isFinite_ofInt (by omega)
  · rcases Option.map_eq_some_iff.mp h with ⟨x, hx, rfl⟩
    exact scalar?_isFinite hx

end Spelling

end Retime
