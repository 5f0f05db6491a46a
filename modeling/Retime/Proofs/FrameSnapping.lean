import Retime.Proofs.PendingStart
import Retime.Proofs.TiesToEven
import Retime.Proofs.UsableRates

/-!
# Frames That Are Lost

Whether the start of a frame lies in the frame.

A time is multiplied by the rate, cut to a whole number of frames, and divided by
the rate again. The quotient is rounded, and where it is rounded down it may fall
short of the frame, though by so little that the product may be rounded up again.
If it is not, the start of the frame counts as lying in the one before, and a
marker that is brought down a second time moves back by a frame.

The start is the double that is nearest to where the frame begins, so it is no
further away than the time was. A time in front of its frame, which was rounded up
to it, is half a frame away at most, and so is the start. It would take a start
just half a frame behind the beginning to reach the next frame, and then the rate
is a power of two, at which starts are exact. So a start is never late, and by the
same distance it is not two frames early.

At rates of two binary digits, such as 24 and 48, no start is early either.

## Main definitions

* `Double.Falls`, `Double.Snaps`: A time in a frame, and the start of that frame.
* `FrameGrid.Counts`: A time whose frames can be counted.
* `FrameGrid.KeepsFrame`: A time that is brought down to its own frame.

## Theorems

* `Double.OnGrid.eq_two_zpow`: What divides one is a power of two.
* `Double.Snaps.floor_start`: A start is in its frame or in the previous one.
* `FrameGrid.Counts.index_start_iff`: When it is in its own.
* `FrameGrid.Counts.snapDown_start`: Then it is brought down to itself.
* `FrameGrid.Counts.index_start_of_two_digits`: Rates that lose no frame.
* `snapping_keeps_frame_iff`: Which times keep their frame.
* `snapping_loses_frame`: Not all of them do.
-/

namespace Retime

namespace Double

open Float.Model Float.Model.UnpackedFloat

/-! ### Points of the grid -/

/-- Whole numbers whose product is a power of two are powers of two. -/
theorem eq_two_pow_of_mul {l n : ℤ} {N : ℕ} (hn : 0 < n) (h : l * n = 2 ^ N) :
    ∃ i : ℕ, n = 2 ^ i := by
  have hdvd : n.natAbs ∣ (2 ^ N : ℤ).natAbs := Int.natAbs_dvd_natAbs.mpr (Dvd.intro_left l h)
  rw [Int.natAbs_pow] at hdvd
  rcases (Nat.dvd_prime_pow Nat.prime_two).mp hdvd with ⟨i, -, hi⟩
  refine ⟨i, ?_⟩
  rw [← Int.natAbs_of_nonneg hn.le, hi]
  norm_cast

/-- So are points of the grid whose product is one, if one of them is only the
    difference of two. -/
theorem OnGrid.eq_two_zpow {a b c : ℝ} (ha : OnGrid a) (hb : OnGrid b) (hc : OnGrid c)
    (hpos : 0 < c) (h : (a - b) * c = 1) : ∃ q : ℤ, c = 2 ^ q := by
  rcases ha.exists_multiple with ⟨l, rfl⟩
  rcases hb.exists_multiple with ⟨m, rfl⟩
  rcases hc.exists_multiple with ⟨n, rfl⟩
  obtain ⟨N, hN⟩ : ∃ N : ℕ, (-1074 : ℤ) = -(N : ℤ) := ⟨1074, rfl⟩
  rw [hN] at h hpos ⊢
  have hunit : (0 : ℝ) < 2 ^ (-(N : ℤ)) := zpow_pos two_pos _
  have hn : 0 < n := by exact_mod_cast (mul_pos_iff_of_pos_right hunit).mp hpos
  have hscale : (2 : ℝ) ^ (-(N : ℤ)) * 2 ^ N = 1 := by
    rw [zpow_neg, zpow_natCast]
    exact inv_mul_cancel₀ (pow_ne_zero _ two_ne_zero)
  -- All three are multiples of the smallest step, so their product is one of whole
  -- numbers that is a power of two.
  have hproduct : (l - m) * n = 2 ^ (N + N) := by
    have hreal : ((l : ℝ) - m) * n = 2 ^ (N + N) := by
      calc ((l : ℝ) - m) * n
          = ((l : ℝ) - m) * n * ((2 ^ (-(N : ℤ)) * 2 ^ N) * (2 ^ (-(N : ℤ)) * 2 ^ N)) := by
            rw [hscale, mul_one, mul_one]
        _ = (l * 2 ^ (-(N : ℤ)) - m * 2 ^ (-(N : ℤ))) * (n * 2 ^ (-(N : ℤ))) *
              (2 ^ N * 2 ^ N) := by ring
        _ = 2 ^ (N + N) := by rw [h, one_mul, pow_add]
    exact_mod_cast hreal
  rcases eq_two_pow_of_mul hn hproduct with ⟨i, rfl⟩
  refine ⟨i + -(N : ℤ), ?_⟩
  rw [zpow_add₀ two_ne_zero, zpow_natCast]
  push_cast
  rfl

theorem onGrid_div_two_zpow {k q : ℤ} (hk : |k| ≤ 2 ^ 53) (hq : q ≤ 1074) :
    OnGrid (k / 2 ^ q) := by
  refine ⟨k, -q, hk, by omega, ?_⟩
  rw [zpow_neg, div_eq_mul_inv]

/-- Beyond 53 bits the grid has no odd numbers. -/
theorem OnGrid.even_of_lt {a : ℝ} (h : OnGrid a) (ha : 2 ^ 53 < |a|) :
    ∃ n : ℤ, a = (2 * n : ℤ) := by
  rcases h with ⟨k, q, hk, -, rfl⟩
  have hk' : |(k : ℝ)| ≤ 2 ^ 53 := by exact_mod_cast hk
  by_cases hq : 1 ≤ q
  · refine ⟨k * 2 ^ (q - 1).toNat, ?_⟩
    have hexp : q = 1 + ((q - 1).toNat : ℤ) := by omega
    conv_lhs => rw [hexp, zpow_add₀ two_ne_zero, zpow_one, zpow_natCast]
    push_cast
    ring
  · -- Steps of one or less cannot make up so large a number with 53 bits.
    have hle : (2 : ℝ) ^ q ≤ 1 := zpow_le_one_of_nonpos₀ one_le_two (by omega)
    rw [abs_mul, abs_of_pos (zpow_pos (two_pos (α := ℝ)) q)] at ha
    have hmul := mul_le_mul hk' hle (zpow_pos two_pos q).le (by positivity)
    rw [mul_one] at hmul
    exact absurd ha (not_lt.mpr hmul)

/-! ### Frames and their starts -/

/-- A time `t` that has run for `x` frames at a rate `f`, and so is in the frame
    `k`. -/
structure Falls (f t x : ℝ) (k : ℤ) : Prop where
  pos : 0 < f
  rate : Fits f
  time : OnGrid t
  small : |t * f| < 2 ^ 53
  frames : Nearest (t * f) x
  floor : ⌊x⌋ = k

/-- The start `s` of that frame. -/
structure Snaps (f t x s : ℝ) (k : ℤ) : Prop extends Falls f t x k where
  start : Nearest (k / f) s

namespace Falls

variable {f t x : ℝ} {k : ℤ}

theorem le_frames (h : Falls f t x k) : (k : ℝ) ≤ x := by
  rw [← h.floor]
  exact Int.floor_le x

theorem frames_lt (h : Falls f t x k) : x < k + 1 := by
  rw [← h.floor]
  exact Int.lt_floor_add_one x

theorem abs_index_le (h : Falls f t x k) : |k| ≤ 2 ^ 53 := by
  -- The bound is a double, so the rounded product does not go past it.
  have hlimit : OnGrid (2 ^ 53 : ℝ) := by
    have hgrid := onGrid_intCast (k := (2 : ℤ) ^ (53 : ℕ)) (by decide)
    rwa [Int.cast_pow, Int.cast_ofNat] at hgrid
  rcases abs_lt.mp h.small with ⟨hlow, hhigh⟩
  have hx := h.frames.le_of_le hlimit.neg hlow.le
  have hx' := h.frames.le_of_ge hlimit hhigh.le
  rw [abs_le]
  constructor
  · rw [← h.floor, Int.le_floor]
    exact_mod_cast hx
  · exact_mod_cast h.le_frames.trans hx'

theorem onGrid (h : Falls f t x k) : OnGrid k := onGrid_intCast h.abs_index_le

/-- A time before its frame is rounded up to it. -/
theorem frames_eq (h : Falls f t x k) (hlt : t * f < k) : x = k :=
  le_antisymm (h.frames.le_of_ge h.onGrid hlt.le) h.le_frames

/-- It is half a frame before it at most. -/
theorem sub_le_half (h : Falls f t x k) (hlt : t * f < k) : k - t * f ≤ 1 / 2 := by
  have hlow : -2 ^ 53 < k := by exact_mod_cast (abs_lt.mp h.small).1.trans hlt
  have hk := (abs_le.mp h.abs_index_le).2
  have hgrid : OnGrid ((k - 1 : ℤ) : ℝ) := onGrid_intCast (abs_le.mpr ⟨by omega, by omega⟩)
  have hleast := h.frames.least _ hgrid
  rw [h.frames_eq hlt, abs_of_pos (sub_pos.mpr hlt)] at hleast
  push_cast at hleast
  rcases le_abs'.mp hleast with hle | hle
  · linarith
  · linarith

end Falls

namespace Snaps

variable {f t x s : ℝ} {k : ℤ}

/-- The start is no further from the frame than the time. -/
theorem abs_start_sub_le (h : Snaps f t x s k) : |s * f - k| ≤ |t * f - k| := by
  rw [← abs_sub_div_mul h.pos, ← abs_sub_div_mul h.pos]
  exact mul_le_mul_of_nonneg_right (h.start.least t h.time) h.pos.le

/-- The start is less than a frame away from where it should be. -/
theorem abs_start_sub_lt (h : Snaps f t x s k) : |s * f - k| < 1 := by
  refine h.abs_start_sub_le.trans_lt ?_
  rcases le_or_gt (k : ℝ) (t * f) with hle | hlt
  · rw [abs_of_nonneg (sub_nonneg.mpr hle), sub_lt_iff_lt_add']
    -- The next frame is on the grid, so a time behind it is not in this one.
    by_contra hge
    have hnext : ((k + 1 : ℤ) : ℝ) ≤ t * f := by
      push_cast
      exact not_lt.mp hge
    have hhigh : k + 1 < 2 ^ 53 := by exact_mod_cast hnext.trans_lt (abs_lt.mp h.small).2
    have hk := (abs_le.mp h.abs_index_le).1
    have hgrid : OnGrid ((k + 1 : ℤ) : ℝ) := onGrid_intCast (abs_le.mpr ⟨by omega, by omega⟩)
    have hx := h.frames.le_of_le hgrid hnext
    push_cast at hx
    exact absurd h.frames_lt (not_lt.mpr hx)
  · rw [abs_sub_comm, abs_of_pos (sub_pos.mpr hlt)]
    linarith [h.sub_le_half hlt]

/-- The start is not in a later frame. -/
theorem lt_next (h : Snaps f t x s k) {y : ℝ} (hy : Nearest (s * f) y)
    (hsame : s = t → y = x) : y < k + 1 := by
  rcases lt_trichotomy s t with hlt | heq | hgt
  · exact (hy.le_of_lt h.frames (mul_lt_mul_of_pos_right hlt h.pos)).trans_lt h.frames_lt
  · rw [hsame heq]
    exact h.frames_lt
  -- The time is before the frame then, and the start at most as far behind it.
  · have hbefore : t * f < k := by
      by_contra hle
      have hs := h.start.le_of_ge h.time ((div_le_iff₀ h.pos).mpr (not_lt.mp hle))
      exact absurd hgt (not_lt.mpr hs)
    have htime := h.sub_le_half hbefore
    have hstart := h.abs_start_sub_le
    rw [abs_sub_comm (t * f), abs_of_pos (sub_pos.mpr hbefore), abs_le] at hstart
    by_contra hnext
    have hleast := hy.least k h.onGrid
    rw [abs_sub_comm (k : ℝ), abs_of_nonneg (by linarith), le_abs'] at hleast
    -- Both are half a frame away, which takes a rate that divides without a rest.
    have hhalf : s * f = k + 1 / 2 := by
      rcases hleast with hle | hle
      · linarith
      · linarith
    rcases h.start.onGrid.eq_two_zpow h.time h.rate.onGrid h.pos (by linarith) with ⟨q, rfl⟩
    have hq : q ≤ 1074 := by
      have hsmall := h.rate.small
      rw [abs_of_pos h.pos, limit_eq, ← zpow_natCast, zpow_lt_zpow_iff_right₀ one_lt_two] at hsmall
      omega
    have hexact := h.start.least _ (onGrid_div_two_zpow h.abs_index_le hq)
    rw [sub_self, abs_zero, abs_nonpos_iff, sub_eq_zero] at hexact
    rw [hexact, div_mul_cancel₀ _ h.pos.ne'] at hhalf
    linarith

/-- Nor in a frame before the previous one. -/
theorem previous_le (h : Snaps f t x s k) {y : ℝ} (hy : Nearest (s * f) y) : (k : ℝ) - 1 ≤ y := by
  have hlow := (abs_lt.mp h.abs_start_sub_lt).1
  rcases abs_le.mp h.abs_index_le with ⟨hk, hk'⟩
  rcases hk.lt_or_eq with hlt | heq
  · have hgrid : OnGrid ((k - 1 : ℤ) : ℝ) := onGrid_intCast (abs_le.mpr ⟨by omega, by omega⟩)
    have hle := hy.le_of_le hgrid (by push_cast; linarith)
    exact_mod_cast hle
  -- The previous number is not on the grid here, but then the start is not before the frame.
  · refine (sub_one_lt (k : ℝ)).le.trans (not_lt.mp fun hbefore => ?_)
    have hfirst : (k : ℝ) = -2 ^ 53 := by exact_mod_cast heq.symm
    have hlarge : 2 ^ 53 < |y| := lt_abs.mpr (Or.inr (by linarith))
    have hleast := (abs_lt.mp ((hy.least k h.onGrid).trans_lt
      ((abs_sub_comm _ _).trans_lt h.abs_start_sub_lt))).1
    rcases hy.onGrid.even_of_lt hlarge with ⟨n, rfl⟩
    have hlower : (k : ℝ) - 2 < (2 * n : ℤ) := by linarith
    have hlower' : k - 2 < 2 * n := by exact_mod_cast hlower
    have hupper' : 2 * n < k := by exact_mod_cast hbefore
    omega

/-- So it is in its own frame or in the previous one. -/
theorem floor_start (h : Snaps f t x s k) {y : ℝ} (hy : Nearest (s * f) y)
    (hsame : s = t → y = x) : ⌊y⌋ = k ∨ ⌊y⌋ = k - 1 := by
  have hlow : k - 1 ≤ ⌊y⌋ := by
    rw [Int.le_floor]
    push_cast
    exact h.previous_le hy
  have hhigh : ⌊y⌋ < k + 1 := by
    rw [Int.floor_lt]
    push_cast
    exact h.lt_next hy hsame
  omega

end Snaps

/-! ### Zeros -/

section Zeros

variable {x y : Float} {s : Sign}

theorem exists_unpack_zero (hx : x.isFinite = true) (hzero : real x = 0) :
    ∃ s, x.toModel.unpack = .zero s := by
  rcases unpack_cases hx with ⟨h, -⟩ | ⟨s, m, q, hm, h⟩
  · exact h
  · exact absurd ((congrArg value h).symm.trans hzero) (value_finite_ne_zero s q hm)

theorem exists_unpack_positive (hx : x.isFinite = true) (hpos : 0 < real x) :
    ∃ m q hm, x.toModel.unpack = .finite .positive m q hm := by
  rcases unpack_cases hx with ⟨-, hzero⟩ | ⟨s, m, q, hm, h⟩
  · exact absurd hzero hpos.ne'
  · cases s with
    | positive => exact ⟨m, q, hm, h⟩
    | negative =>
        have hneg : real x ≤ 0 := by
          rw [real_of_unpack h]
          exact neg_nonpos.mpr (by positivity)
        exact absurd hpos (not_lt.mpr hneg)

/-- A zero over a positive double is that zero. -/
theorem unpack_zero_div (hx : x.toModel.unpack = .zero s) (hy : y.isFinite = true)
    (hpos : 0 < real y) : (x / y).toModel.unpack = .zero s := by
  rcases exists_unpack_positive hy hpos with ⟨m, q, hm, h⟩
  change (Float.Model.pack (UnpackedFloat.div Format.binary64 _ _)).unpack = _
  rw [hx, h]
  cases s with
  | positive | negative => exact unpack_pack .zero .zero

theorem unpack_zero_mul (hx : x.toModel.unpack = .zero s) (hy : y.isFinite = true)
    (hpos : 0 < real y) : (x * y).toModel.unpack = .zero s := by
  rcases exists_unpack_positive hy hpos with ⟨m, q, hm, h⟩
  change (Float.Model.pack (UnpackedFloat.mul Format.binary64 _ _)).unpack = _
  rw [hx, h]
  cases s with
  | positive | negative => exact unpack_pack .zero .zero

theorem floor_zero (hx : x.toModel.unpack = .zero s) : Double.floor x = x := by
  unfold Double.floor
  rw [hx]

/-- What is no finite number is cut to zero or to a bound. -/
theorem toInt_of_not_isFinite {lo hi : Int} (hx : x.isFinite = false) :
    toInt lo hi x = 0 ∨ toInt lo hi x = lo ∨ toInt lo hi x = hi := by
  have hunpack : x.toModel.unpack.isFinite = false := hx
  unfold toInt
  cases h : x.toModel.unpack with
  | notANumber => exact Or.inl rfl
  | infinity s =>
      cases s with
      | positive => exact Or.inr (Or.inr rfl)
      | negative => exact Or.inr (Or.inl rfl)
  | zero | finite =>
      rw [h] at hunpack
      cases hunpack

end Zeros

end Double

/-! ### Starts of frames in doubles -/

namespace FrameGrid

open Double

/-- Frames up to 64 bits are counted as they are. -/
theorem index_of_within {g : FrameGrid Float} {time : Float} {k : ℤ}
    (h : Within (Scalar.floor (time * g.rate)) k k) (hk : |k| < 2 ^ 54) : g.index time = k := by
  have hbound := abs_lt.mp hk
  unfold index
  rw [toInt_of_whole h]
  omega

/-- A time whose frames can be counted. -/
structure Counts (g : FrameGrid Float) (time : Float) : Prop where
  isFinite_rate : g.rate.isFinite = true
  pos : 0 < real g.rate
  isFinite_time : time.isFinite = true
  small : |real time * real g.rate| < 2 ^ 53

namespace Counts

variable {g : FrameGrid Float} {time : Float}

theorem isFinite_frames (h : g.Counts time) : (time * g.rate).isFinite = true := by
  have hlimit := fits_zpow (k := 53) (by decide) (by decide)
  rcases abs_lt.mp h.small with ⟨hlow, hhigh⟩
  have hframes := (rounds_mul h.isFinite_time h.isFinite_rate).between hlimit.neg hlimit
    (by exact_mod_cast hlow.le) (by exact_mod_cast hhigh.le)
  exact hframes.isFinite

theorem within_frame (h : g.Counts time) : Within (Scalar.floor (time * g.rate))
    ⌊real (time * g.rate)⌋ ⌊real (time * g.rate)⌋ :=
  within_floor h.isFinite_frames

theorem falls (h : g.Counts time) :
    Falls (real g.rate) (real time) (real (time * g.rate)) ⌊real (time * g.rate)⌋ :=
  { pos := h.pos
    rate := fits_real h.isFinite_rate
    time := onGrid_real h.isFinite_time
    small := h.small
    frames := (rounds_mul h.isFinite_time h.isFinite_rate).nearest h.isFinite_frames
    floor := rfl }

theorem index_eq (h : g.Counts time) : g.index time = ⌊real (time * g.rate)⌋ :=
  index_of_within h.within_frame (h.falls.abs_index_le.trans_lt (by decide))

theorem rounds_start (h : g.Counts time) :
    Rounds (⌊real (time * g.rate)⌋ / real g.rate) (g.snapDown time) := by
  have hdiv := rounds_div h.within_frame.isFinite h.isFinite_rate h.pos.ne'
  rwa [h.within_frame.real_eq] at hdiv

theorem snaps (h : g.Counts time) (hs : (g.snapDown time).isFinite = true) :
    Snaps (real g.rate) (real time) (real (time * g.rate)) (real (g.snapDown time))
      ⌊real (time * g.rate)⌋ :=
  { h.falls with start := h.rounds_start.nearest hs }

/-- The frames up to a start can be counted as well. -/
theorem isFinite_start_frames (h : g.Counts time) (hs : (g.snapDown time).isFinite = true) :
    (g.snapDown time * g.rate).isFinite = true := by
  have hlimit := fits_zpow (k := 54) (by decide) (by decide)
  -- The start is within a frame of where the frames put it, which is far below the
  -- largest double.
  have hclose := abs_lt.mp (h.snaps hs).abs_start_sub_lt
  have hindex := abs_le.mp h.falls.abs_index_le
  have hlow : -(2 : ℝ) ^ 53 ≤ ⌊real (time * g.rate)⌋ := by exact_mod_cast hindex.1
  have hhigh : (⌊real (time * g.rate)⌋ : ℝ) ≤ 2 ^ 53 := by exact_mod_cast hindex.2
  have hpow : (2 : ℝ) ^ (54 : ℤ) = 2 * 2 ^ 53 := by norm_num
  refine ((rounds_mul hs h.isFinite_rate).between hlimit.neg hlimit ?_ ?_).isFinite
  · rw [hpow]
    linarith
  · rw [hpow]
    linarith

theorem nearest_start_frames (h : g.Counts time) (hs : (g.snapDown time).isFinite = true) :
    Nearest (real (g.snapDown time) * real g.rate) (real (g.snapDown time * g.rate)) :=
  (rounds_mul hs h.isFinite_rate).nearest (h.isFinite_start_frames hs)

theorem floor_start (h : g.Counts time) (hs : (g.snapDown time).isFinite = true) :
    ⌊real (g.snapDown time * g.rate)⌋ = ⌊real (time * g.rate)⌋ ∨
      ⌊real (g.snapDown time * g.rate)⌋ = ⌊real (time * g.rate)⌋ - 1 :=
  (h.snaps hs).floor_start (h.nearest_start_frames hs)
    (real_mul_congr hs h.isFinite_time h.isFinite_rate)

theorem index_start_eq (h : g.Counts time) (hs : (g.snapDown time).isFinite = true) :
    g.index (g.snapDown time) = ⌊real (g.snapDown time * g.rate)⌋ := by
  have hbound := abs_le.mp h.falls.abs_index_le
  have hstart := h.floor_start hs
  refine index_of_within (within_floor (h.isFinite_start_frames hs)) (abs_lt.mpr ?_)
  omega

/-- The start of a frame is in it or in the previous one. -/
theorem index_start (h : g.Counts time) (hs : (g.snapDown time).isFinite = true) :
    g.index (g.snapDown time) = g.index time ∨
      g.index (g.snapDown time) = g.index time - 1 := by
  rw [h.index_start_eq hs, h.index_eq]
  exact h.floor_start hs

/-- It is in it if it has run for so many frames. -/
theorem index_start_iff (h : g.Counts time) (hs : (g.snapDown time).isFinite = true) :
    g.index (g.snapDown time) = g.index time ↔
      Scalar.floor (time * g.rate) ≤ g.snapDown time * g.rate := by
  have hstart := h.floor_start hs
  rw [h.index_start_eq hs, h.index_eq,
    le_iff_real h.within_frame.isFinite (h.isFinite_start_frames hs), h.within_frame.real_eq,
    ← Int.le_floor]
  omega

/-- A start that is too far away is in no frame that is counted. -/
theorem isFinite_start (h : g.Counts time)
    (hindex : g.index (g.snapDown time) = g.index time) : (g.snapDown time).isFinite = true := by
  have hbound := abs_le.mp h.falls.abs_index_le
  by_contra hs
  have hproduct : (Scalar.floor (g.snapDown time * g.rate)).isFinite = false := by
    rw [Bool.eq_false_iff]
    exact fun hfinite => hs (isFinite_of_mul (isFinite_of_floor hfinite)).1
  -- The first frame begins at zero.
  have hne : ⌊real (time * g.rate)⌋ ≠ 0 := by
    intro hzero
    have hframe := h.within_frame
    rw [hzero, Int.cast_zero] at hframe
    exact hs (within_zero_div hframe (not_isNaN_of_isFinite h.isFinite_rate)
      fun _ => h.pos.ne').isFinite
  have hcut : g.index (g.snapDown time) = 0 ∨ g.index (g.snapDown time) = -0x8000000000000000 ∨
      g.index (g.snapDown time) = 0x7fffffffffffffff := toInt_of_not_isFinite hproduct
  rw [hindex, h.index_eq] at hcut
  omega

/-- A start that is in its frame is brought down to itself. -/
theorem snapDown_start (h : g.Counts time) (hs : (g.snapDown time).isFinite = true)
    (hindex : g.index (g.snapDown time) = g.index time) :
    g.snapDown (g.snapDown time) = g.snapDown time := by
  rw [h.index_start_eq hs, h.index_eq] at hindex
  have hframe := within_floor (h.isFinite_start_frames hs)
  rw [hindex] at hframe
  have hfloor : Scalar.floor (g.snapDown time * g.rate) = Scalar.floor (time * g.rate) := by
    by_cases hzero : ⌊real (time * g.rate)⌋ = 0
    -- A zero keeps its sign.
    · have hnone := h.within_frame.real_eq
      rw [hzero, Int.cast_zero] at hnone
      rcases exists_unpack_zero h.within_frame.isFinite hnone with ⟨s, hunpack⟩
      have hstart : (g.snapDown time).toModel.unpack = .zero s :=
        unpack_zero_div hunpack h.isFinite_rate h.pos
      have hback := unpack_zero_mul hstart h.isFinite_rate h.pos
      have hsame : Scalar.floor (g.snapDown time * g.rate) = g.snapDown time * g.rate :=
        floor_zero hback
      rw [hsame]
      exact eq_of_unpack_eq (hback.trans hunpack.symm)
    · refine eq_of_real_eq hframe.isFinite h.within_frame.isFinite
        (hframe.real_eq.trans h.within_frame.real_eq.symm) ?_
      rw [show real (Scalar.floor (g.snapDown time * g.rate)) = _ from hframe.real_eq]
      exact Int.cast_ne_zero.mpr hzero
  exact congrArg (· / g.rate) hfloor

/-- A start that is exact is in its frame. -/
theorem index_start_of_fits (h : g.Counts time)
    (hfits : Fits (g.index time / real g.rate)) : g.index (g.snapDown time) = g.index time := by
  rw [h.index_eq] at hfits
  have hstart := h.rounds_start.exact hfits
  have hnear := h.nearest_start_frames hstart.isFinite
  rw [hstart.real_eq, div_mul_cancel₀ _ h.pos.ne'] at hnear
  rw [h.index_start_eq hstart.isFinite, hnear.eq_of_onGrid h.falls.onGrid, Int.floor_intCast,
    h.index_eq]

/-- So is a start at a rate that is a power of two. -/
theorem index_start_of_power (h : g.Counts time) {i : ℕ} (hrate : real g.rate = 2 ^ i) :
    g.index (g.snapDown time) = g.index time := by
  -- The rate is a double, so its exponent is one as well.
  have hindex := h.falls.abs_index_le
  have hi : i < 1024 := by
    have hsmall := h.falls.rate.small
    rwa [hrate, abs_of_pos (by positivity), limit_eq, pow_lt_pow_iff_right₀ one_lt_two] at hsmall
  refine h.index_start_of_fits ?_
  rw [h.index_eq, hrate]
  -- A quotient by a power of two only moves the exponent.
  constructor
  · have hgrid := onGrid_div_two_zpow hindex (q := i) (by omega)
    rwa [zpow_natCast] at hgrid
  · have hpos : (0 : ℝ) < 2 ^ i := by positivity
    rw [abs_div, abs_of_pos hpos]
    exact (div_le_self (abs_nonneg _) (one_le_pow₀ one_le_two)).trans_lt (fits_intCast hindex).small

/-- At a rate of two binary digits a start is in its frame whether it is exact or
    not. -/
theorem index_start_of_two_digits (h : g.Counts time) {i j : ℕ} (hij : i < j) (hj : j ≤ 52)
    (hrate : real g.rate = 2 ^ i + 2 ^ j) (hindex : |g.index time| < 2 ^ 52) :
    g.index (g.snapDown time) = g.index time := by
  have hone : (1.0 : Float) ≤ g.rate := by
    rw [le_iff_real within_one.isFinite h.isFinite_rate, within_one.real_eq, hrate]
    linarith [one_le_pow₀ (one_le_two (α := ℝ)) (n := i), pow_pos (two_pos (α := ℝ)) j]
  have hs := isFinite_snapDown h.isFinite_rate hone h.isFinite_frames
  have hdigits : real g.rate = (2 ^ (j - i) + 1) * 2 ^ (i : ℤ) := by
    rw [hrate, zpow_natCast, add_mul, ← pow_add, Nat.sub_add_cancel hij.le, one_mul, add_comm]
  -- Two powers below the largest add up to one that is still far from it.
  have hsmall : real g.rate ≤ 2 ^ 1021 := by
    have hlow : (2 : ℝ) ^ i ≤ 2 ^ 1020 := pow_le_pow_right₀ one_le_two (by omega)
    have hhigh : (2 : ℝ) ^ j ≤ 2 ^ 1020 := pow_le_pow_right₀ one_le_two (by omega)
    rw [hrate, pow_succ, mul_two]
    exact add_le_add hlow hhigh
  rw [h.index_eq] at hindex
  -- The start is the nearest there is, and so is the product, which a tie makes even.
  have hback := eq_of_two_digits (by omega) (by omega) hdigits hsmall hindex (h.snaps hs).start
    (h.nearest_start_frames hs) (evenTie_real_mul hs h.isFinite_rate (h.isFinite_start_frames hs))
  rw [h.index_start_eq hs, hback, Int.floor_intCast, h.index_eq]

end Counts

/-- Snapping a time keeps its frame: the start is in the same frame, and is the
    start of that. -/
def KeepsFrame (g : FrameGrid Float) (time : Float) : Prop :=
  g.index (g.snapDown time) = g.index time ∧ g.snapDown (g.snapDown time) = g.snapDown time

/-- The grid of a rate that is accepted has that rate, which is positive. -/
theorem ofRate?_eq_some {rate : Float} {g : FrameGrid Float} (h : ofRate? rate = some g) :
    rate.isFinite = true ∧ 0 < real rate ∧ g = ⟨rate⟩ := by
  unfold ofRate? at h
  by_cases hpos : Scalar.isPositive rate = true
  · rw [if_pos hpos] at h
    have hrate := (isPositive_iff_real rate).mp hpos
    exact ⟨hrate.1, hrate.2, (Option.some.inj h).symm⟩
  · rw [if_neg hpos] at h
    cases h

end FrameGrid

open Double

/-- A time keeps its frame when it is brought down if and only if the start of the
    frame, multiplied by the rate and rounded, is no less than the number of frames.
    Otherwise the start is in the previous frame, unless it is infinite, which it
    is not where there is a frame in a second or more. No frame is lost whose start
    is exact, so none at rates that are powers of two, and none of the first
    `2 ^ 52` at whole rates of two binary digits. -/
theorem snapping_keeps_frame_iff (rate : Float) (g : FrameGrid Float)
    (hg : FrameGrid.ofRate? rate = some g) (time : Float) (htime : time.isFinite = true)
    (hsmall : |real time * real rate| < 2 ^ 53) :
    let start := g.snapDown time
    (g.KeepsFrame time ↔
      start.isFinite = true ∧ Scalar.floor (time * rate) ≤ start * rate) ∧
    (start.isFinite = true → g.KeepsFrame time ∨ g.index start = g.index time - 1) ∧
    (1.0 ≤ rate → start.isFinite = true) ∧
    (Fits (g.index time / real rate) → g.KeepsFrame time) ∧
    (∀ i : ℕ, real rate = 2 ^ i → g.KeepsFrame time) ∧
    ∀ i j : ℕ, i < j → j ≤ 52 → real rate = 2 ^ i + 2 ^ j → |g.index time| < 2 ^ 52 →
      g.KeepsFrame time := by
  intro start
  rcases FrameGrid.ofRate?_eq_some hg with ⟨hfinite, hpos, rfl⟩
  have hcounts : FrameGrid.Counts ⟨rate⟩ time := ⟨hfinite, hpos, htime, hsmall⟩
  -- In its frame, the start is brought down to itself, so
  -- the second part follows from the first.
  have hkeeps : FrameGrid.index ⟨rate⟩ start = FrameGrid.index ⟨rate⟩ time →
      FrameGrid.KeepsFrame ⟨rate⟩ time := fun hindex =>
    ⟨hindex, hcounts.snapDown_start (hcounts.isFinite_start hindex) hindex⟩
  refine ⟨⟨fun h => ?_, fun h => hkeeps ((hcounts.index_start_iff h.1).mpr h.2)⟩, fun hs => ?_,
    fun hone => FrameGrid.isFinite_snapDown hfinite hone hcounts.isFinite_frames,
    fun hfits => hkeeps (hcounts.index_start_of_fits hfits),
    fun i hrate => hkeeps (hcounts.index_start_of_power hrate),
    fun i j hij hj hrate hindex => hkeeps (hcounts.index_start_of_two_digits hij hj hrate hindex)⟩
  · have hs := hcounts.isFinite_start h.1
    exact ⟨hs, (hcounts.index_start_iff hs).mp h.1⟩
  · exact (hcounts.index_start hs).imp hkeeps id

/-- A double with the parts of a whole number has its value. -/
theorem within_of_unpack {x : Float} {n : ℕ} (hn : n < 2 ^ 53)
    (h : x.toModel.unpack = (Float.ofNat n).toModel.unpack) : Within x n n := by
  rw [eq_of_unpack_eq h]
  exact within_ofNat hn

/-- The frames up to a time in the second second can be counted. -/
theorem frames_small (time : Float) {rate : Float} {n : ℕ} (hrate : Within rate n n)
    (hn : n ≤ 25) (hlow : 1.0 ≤ time) (hhigh : time ≤ 2.0) :
    time.isFinite = true ∧ |real time * real rate| < 2 ^ 53 := by
  have htime := isFinite_of_between within_one.isFinite within_two.isFinite hlow hhigh
  rw [le_iff_real within_one.isFinite htime, within_one.real_eq] at hlow
  rw [le_iff_real htime within_two.isFinite, within_two.real_eq] at hhigh
  refine ⟨htime, ?_⟩
  have hn' : (n : ℝ) ≤ 25 := by exact_mod_cast hn
  -- Two seconds of at most 25 frames are nowhere near the bound.
  rw [abs_mul, hrate.real_eq, Nat.abs_cast]
  calc |real time| * n ≤ 2 * 25 :=
        mul_le_mul (abs_le.mpr ⟨by linarith, hhigh⟩) hn' (Nat.cast_nonneg n) zero_le_two
    _ < 2 ^ 53 := by norm_num

/-- The same time keeps its frame at one rate and loses it at the next. -/
theorem snapping_keeps_frame_iff_neighbours :
    ∃ g h : FrameGrid Float, FrameGrid.ofRate? 24.0 = some g ∧ g.KeepsFrame 1.18 ∧
      FrameGrid.ofRate? 25.0 = some h ∧ ¬ h.KeepsFrame 1.18 ∧
        h.index (h.snapDown 1.18) = h.index 1.18 - 1 := by
  have hslow : FrameGrid.ofRate? (24.0 : Float) = some ⟨24.0⟩ := by rfl
  have hfast : FrameGrid.ofRate? (25.0 : Float) = some ⟨25.0⟩ := by rfl
  have hrate : Within 24.0 (24 : ℕ) (24 : ℕ) := within_of_unpack (by decide) (by rfl)
  have hrate' : Within 25.0 (25 : ℕ) (25 : ℕ) := within_of_unpack (by decide) (by rfl)
  rcases frames_small 1.18 hrate (by decide) (by decide +kernel) (by decide +kernel) with
    ⟨htime, hsmall⟩
  have hsmall' := (frames_small 1.18 hrate' le_rfl (by decide +kernel) (by decide +kernel)).2
  refine ⟨_, _, hslow, ?_, hfast, ?_⟩
  · -- Twenty-four is eight and sixteen, while twenty-five has three binary digits.
    refine (snapping_keeps_frame_iff _ _ hslow _ htime hsmall).2.2.2.2.2 3 4 (by decide) (by decide)
      ?_ (by decide +kernel)
    rw [hrate.real_eq]
    norm_num
  · rcases snapping_keeps_frame_iff _ _ hfast _ htime hsmall' with ⟨hiff, hprevious, hone, -⟩
    have hlost : ¬ FrameGrid.KeepsFrame ⟨25.0⟩ 1.18 := by
      rw [hiff]
      decide +kernel
    exact ⟨hlost, (hprevious (hone (by decide +kernel))).resolve_left hlost⟩

/-- At 25 frames in a second, 1.18 seconds are in the 30th frame, and the start of
    that frame is in the 29th. -/
theorem snapping_loses_frame :
    ¬ ∀ (rate : Float) (g : FrameGrid Float), FrameGrid.ofRate? rate = some g →
      ∀ time : Float, time.isFinite = true → |real time * real rate| < 2 ^ 53 →
        g.index (g.snapDown time) = g.index time ∧
          g.snapDown (g.snapDown time) = g.snapDown time := by
  intro h
  have hrate : Within 25.0 (25 : ℕ) (25 : ℕ) := within_of_unpack (by decide) (by rfl)
  rcases frames_small 1.18 hrate le_rfl (by decide +kernel) (by decide +kernel) with
    ⟨htime, hsmall⟩
  have hindex := (h 25.0 _ rfl 1.18 htime hsmall).1
  revert hindex
  decide +kernel

end Retime
