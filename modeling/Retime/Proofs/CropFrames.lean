import Mathlib.Data.Real.Basic
import Retime.Proofs.CleanDocuments
import Retime.Proofs.Exact

/-!
# Crops and Their Frames

What is left of a crop when its frame changes.

Bringing a crop inside is done along each side by itself, and along a side it is
a matter of two numbers. A size that the frame has room for stays, and the corner
goes back no further than it has to. A size that is too large becomes all of the
frame. This is said with numbers that do not wrap around, so it also says that no
difference does.

A change of the resolution scales the corner and the size, rounds both, and only
then brings the crop inside. Rounding them by themselves may push a crop that
touches the edge out by one pixel, if both were half way between two pixels and
went up. It is pulled back by that pixel. So the corner is half a pixel off at
most, before and after. Half a pixel of a frame that is no smaller is at most
half a pixel of the old frame, and less than that if the frame is larger: going
back, each number is rounded to what it was.

## Main definitions

* `Crop.Settles`: What one side of a crop becomes when it is brought inside.
* `Crop.SameSymbols`: Two crops have full extents along the same sides.

## Theorems

* `Crop.settles`: Along each side a crop settles.
* `clamping_retracts`: Bringing crops inside is a retraction onto those inside.
* `Crop.near_pullBack`: Pulling a corner back leaves it near to where it was.
* `Crop.side_rescaled_back`: Along one side, nothing is lost by a larger frame.
* `rescaling_back_is_lossless`: A larger resolution and back loses nothing.
-/

namespace Retime

namespace Crop

/-! ### Bringing inside -/

/-- What one side of a crop becomes when it is brought inside: its corner and its
    extent before, and after. Differences are formed of `whole` and a number that
    is not above it. -/
structure Settles (whole corner : UInt32) (extent : Extent) (corner' : UInt32)
    (extent' : Extent) : Prop where
  size_le : min (extent.size whole) whole ≤ whole
  corner_le : corner' ≤ whole
  full_iff : extent' = .full ↔ extent = .full
  kept : (extent.size whole).toNat ≤ whole.toNat →
    extent' = extent ∧
      corner'.toNat = min corner.toNat (whole.toNat - (extent.size whole).toNat)
  cut : whole.toNat < (extent.size whole).toNat → extent' = .pixels whole ∧ corner' = 0

/-- Along each side a crop settles. -/
theorem settles (whole corner : UInt32) (extent : Extent) :
    Settles whole corner extent (pullBack corner (extent.size whole) whole)
      (extent.map fun n => min n (whole - pullBack corner (extent.size whole) whole)) := by
  have hcorner := toNat_pullBack corner (extent.size whole) whole
  have hmin := toNat_min (extent.size whole) whole
  -- Corner and extent are words, so what is cut is compared as natural numbers.
  have hbounds : min (extent.size whole) whole ≤ whole ∧
      pullBack corner (extent.size whole) whole ≤ whole := by
    rw [UInt32.le_iff_toNat_le, UInt32.le_iff_toNat_le, hmin, hcorner]
    omega
  have hzero : whole.toNat < (extent.size whole).toNat →
      pullBack corner (extent.size whole) whole = 0 := by
    intro hlt
    rw [← UInt32.toNat_inj, hcorner]
    change _ = 0
    omega
  cases extent with
  | full =>
      exact ⟨hbounds.1, hbounds.2, Iff.rfl, fun _ => ⟨rfl, by omega⟩,
        fun hlt => absurd hlt (Nat.lt_irrefl _)⟩
  | pixels n =>
      have hrest := toNat_rest corner n whole
      refine ⟨hbounds.1, hbounds.2, iff_of_false nofun nofun, fun hle => ⟨?_, by omega⟩,
        fun hlt => ⟨?_, hzero hlt⟩⟩
      · exact congrArg Extent.pixels (UInt32.toNat_inj.mp (hrest.trans (Nat.min_eq_left hle)))
      · exact congrArg Extent.pixels (UInt32.toNat_inj.mp (hrest.trans (Nat.min_eq_right hlt.le)))

theorem inside_liesIn (r : Resolution) (c : Crop) : (c.inside r).LiesIn r :=
  (inside_eq_self_iff r _).mp (inside_inside r c)

end Crop

/-- Bringing crops inside a frame is a retraction onto the crops that lie in it.
    Along each side a crop settles, with no difference below zero. What comes of it
    lies in the frame, and is the crop itself just if that did. So to do it twice is
    to do it once. -/
theorem clamping_retracts (r : Resolution) (c : Crop) :
    Crop.Settles r.width c.x c.width (c.inside r).x (c.inside r).width ∧
      Crop.Settles r.height c.y c.height (c.inside r).y (c.inside r).height ∧
      (c.inside r).LiesIn r ∧
      (c.inside r = c ↔ c.LiesIn r) ∧
      (c.inside r).inside r = c.inside r :=
  ⟨Crop.settles r.width c.x c.width, Crop.settles r.height c.y c.height, Crop.inside_liesIn r c,
    Crop.inside_eq_self_iff r c, Crop.inside_inside r c⟩

/-- A corner that is too far out is pulled back in a frame that has room for the
    size, and a size at the largest number is cut down to an empty frame. -/
example :
    (Crop.mk 1800 1000 (.pixels 400) (.pixels 200)).inside .landscape =
        ⟨1520, 880, .pixels 400, .pixels 200⟩ ∧
      (Crop.mk 4294967295 30 (.pixels 4294967295) .full).inside ⟨0, 10⟩ =
        ⟨0, 0, .pixels 0, .full⟩ := by
  decide

namespace Crop

/-! ### Another frame and back -/

section Scaling

open Exact

/-- The factor by which numbers of pixels grow from one frame to another. -/
noncomputable def growth (old new : UInt32) : ℝ :=
  Scalar.ofNat new.toNat / Scalar.ofNat old.toNat

theorem growth_eq (old new : UInt32) : growth old new = new.toNat / old.toNat := by
  rw [growth, ofNat_eq, ofNat_eq]

/-- A scaled number of pixels is the nearest one that there is. -/
theorem toNat_scalePixels {factor : ℝ} {n : UInt32} {k : ℕ}
    (h : nearest (n.toNat * factor) = k) (hk : k ≤ maxPixels) :
    (scalePixels factor n).toNat = k := by
  have hsize : maxPixels < UInt32.size := by decide
  have hfloor : Scalar.toInt 0 maxPixels ((k : ℤ) : ℝ) = k := by
    rw [toInt_intCast]
    omega
  rw [scalePixels, ofNat_eq, round_eq, h, hfloor, Int.toNat_natCast]
  exact UInt32.toNat_ofNat_of_lt' (hk.trans_lt hsize)

variable {old new : UInt32}

/-- In a frame that is no smaller, a number of pixels becomes one that is at most
    half a pixel off, and is not above the frame if it was not. -/
theorem near_scaled_up {n : UInt32} (hpos : 0 < old.toNat) (hn : n.toNat ≤ old.toNat) :
    (scalePixels (growth old new) n).toNat ≤ new.toNat ∧
      |((scalePixels (growth old new) n).toNat : ℝ) - n.toNat * growth old new| ≤ 1 / 2 := by
  have hold : (0 : ℝ) < old.toNat := by exact_mod_cast hpos
  have hle : (n.toNat : ℝ) * growth old new ≤ new.toNat := by
    rw [growth_eq, mul_div_assoc', div_le_iff₀ hold, mul_comm (new.toNat : ℝ)]
    exact_mod_cast Nat.mul_le_mul_right _ hn
  have hnonneg : 0 ≤ (n.toNat : ℝ) * growth old new := by
    rw [growth_eq]
    positivity
  -- Rounding keeps the order, and what are whole numbers.
  have hhigh : nearest (n.toNat * growth old new) ≤ new.toNat := by
    have hmono := nearest_mono hle
    rwa [nearest_natCast] at hmono
  have hlow : 0 ≤ nearest (n.toNat * growth old new) :=
    (nearest_nonneg_iff _).mpr (by linarith)
  obtain ⟨k, hk⟩ := Int.eq_ofNat_of_zero_le hlow
  have hknew : k ≤ new.toNat := by omega
  have hscaled : (scalePixels (growth old new) n).toNat = k :=
    toNat_scalePixels hk (hknew.trans (Nat.le_sub_one_of_lt new.toNat_lt))
  have hnear := abs_nearest_sub_le (n.toNat * growth old new)
  rw [hk, Int.cast_natCast] at hnear
  rw [hscaled]
  exact ⟨hknew, hnear⟩

/-- Pulling a corner back leaves it within half a pixel of where it was to be, if
    the corner and the size were, and if there is room for both as they were to be. -/
theorem near_pullBack {corner size whole : UInt32} {a b : ℝ} (hroom : a + b ≤ whole.toNat)
    (hcorner : |(corner.toNat : ℝ) - a| ≤ 1 / 2) (hsize : |(size.toNat : ℝ) - b| ≤ 1 / 2)
    (hle : size.toNat ≤ whole.toNat) :
    |((pullBack corner size whole).toNat : ℝ) - a| ≤ 1 / 2 := by
  rw [toNat_pullBack, Nat.min_eq_left hle]
  by_cases hfits : corner.toNat ≤ whole.toNat - size.toNat
  · rwa [Nat.min_eq_left hfits]
  · rw [Nat.min_eq_right (by omega), Nat.cast_sub hle]
    -- The corner went up, and moves back by a pixel or more.
    have hback : (whole.toNat : ℝ) - size.toNat + 1 ≤ corner.toNat := by
      rw [← Nat.cast_sub hle]
      exact_mod_cast Nat.lt_of_not_le hfits
    rw [abs_le] at hcorner hsize ⊢
    exact ⟨by linarith, by linarith⟩

/-- What is half a pixel off at most comes back, as in the old frame it is less, or
    else nothing was scaled. -/
theorem scaled_back {m n : UInt32} (hpos : 0 < old.toNat) (hle : old.toNat ≤ new.toNat)
    (h : |(m.toNat : ℝ) - n.toNat * growth old new| ≤ 1 / 2) :
    scalePixels (growth new old) m = n := by
  have hold : (0 : ℝ) < old.toNat := by exact_mod_cast hpos
  have hnew : (0 : ℝ) < new.toNat := by exact_mod_cast hpos.trans_le hle
  have hnearest : nearest (m.toNat * growth new old) = n.toNat := by
    -- In a frame of the same size nothing is scaled, and half a pixel is no pixel.
    rcases Nat.eq_or_lt_of_le hle with heq | hlt
    · have hone : growth old new = 1 := by
        rw [growth_eq, heq]
        exact div_self hnew.ne'
      have hone' : growth new old = 1 := by
        rw [growth_eq, heq]
        exact div_self hnew.ne'
      have hsame : m.toNat = n.toNat := by
        rw [hone, mul_one, abs_le] at h
        have hlow : (n.toNat : ℝ) < m.toNat + 1 := by linarith
        have hhigh : (m.toNat : ℝ) < n.toNat + 1 := by linarith
        norm_cast at hlow hhigh
        omega
      rw [hone', mul_one, nearest_natCast, hsame]
    · refine nearest_eq ?_
      have hlt' : (old.toNat : ℝ) < new.toNat := by exact_mod_cast hlt
      -- Going back scales the error by the ratio of the frames, which is less than one.
      have hscale : (m.toNat : ℝ) * growth new old - (n.toNat : ℤ) =
          (m.toNat - n.toNat * growth old new) * (old.toNat / new.toNat) := by
        rw [growth_eq, growth_eq, Int.cast_natCast]
        field_simp
      have hratio : (old.toNat : ℝ) / new.toNat < 1 := (div_lt_one hnew).mpr hlt'
      rw [hscale, abs_mul, abs_of_pos (div_pos hold hnew)]
      calc |(m.toNat : ℝ) - n.toNat * growth old new| * (old.toNat / new.toNat)
          ≤ 1 / 2 * (old.toNat / new.toNat) :=
            mul_le_mul_of_nonneg_right h (div_pos hold hnew).le
        _ < 1 / 2 := by linarith
  exact UInt32.toNat_inj.mp <|
    toNat_scalePixels hnearest (Nat.le_sub_one_of_lt n.toNat_lt)

/-- Along one side, nothing is lost by a frame that is no smaller and back. -/
theorem side_rescaled_back {corner : UInt32} {extent : Extent} (hpos : 0 < old.toNat)
    (hle : old.toNat ≤ new.toNat)
    (hin : corner.toNat + (extent.size old).toNat ≤ old.toNat) :
    let x := scalePixels (growth old new) corner
    let e := extent.map (scalePixels (growth old new))
    let x' := pullBack x (e.size new) new
    scalePixels (growth new old) x' = corner ∧
      (e.map fun n => min n (new - x')).map (scalePixels (growth new old)) = extent := by
  intro x e x'
  have hold : (0 : ℝ) < old.toNat := by exact_mod_cast hpos
  -- The size that is pulled back by is near to the scaled one, also if it is full.
  have hsize : (e.size new).toNat ≤ new.toNat ∧
      |((e.size new).toNat : ℝ) - (extent.size old).toNat * growth old new| ≤ 1 / 2 := by
    cases extent with
    | pixels n => exact near_scaled_up hpos (Nat.le_of_add_left_le hin)
    | full =>
        refine ⟨le_rfl, ?_⟩
        change |(new.toNat : ℝ) - old.toNat * growth old new| ≤ 1 / 2
        rw [growth_eq, mul_div_cancel₀ _ hold.ne', sub_self, abs_zero]
        norm_num
  have hcorner : |(x.toNat : ℝ) - corner.toNat * growth old new| ≤ 1 / 2 :=
    (near_scaled_up hpos (Nat.le_of_add_right_le hin)).2
  have hroom : (corner.toNat : ℝ) * growth old new + (extent.size old).toNat * growth old new ≤
      new.toNat := by
    rw [← add_mul, growth_eq, mul_div_assoc', div_le_iff₀ hold, mul_comm (new.toNat : ℝ)]
    exact_mod_cast Nat.mul_le_mul_right _ hin
  refine ⟨scaled_back hpos hle (near_pullBack hroom hcorner hsize.2 hsize.1), ?_⟩
  cases extent with
  | full => rfl
  | pixels n =>
      -- The size fits the frame, so all of it is left behind the corner.
      have hkept : min (scalePixels (growth old new) n) (new - x') =
          scalePixels (growth old new) n :=
        UInt32.toNat_inj.mp ((toNat_rest x _ new).trans (Nat.min_eq_left hsize.1))
      change Extent.pixels (scalePixels _ (min (scalePixels (growth old new) n) (new - x'))) = _
      rw [hkept]
      exact congrArg Extent.pixels (scaled_back hpos hle hsize.2)

end Scaling

/-- Two crops have full extents along the same sides. -/
def SameSymbols (c d : Crop) : Prop :=
  (d.width = .full ↔ c.width = .full) ∧ (d.height = .full ↔ c.height = .full)

/-- A crop in another frame, brought inside it. -/
noncomputable def reframed (old new : Resolution) (c : Crop) : Crop :=
  (c.scaled (growth old.width new.width) (growth old.height new.height)).inside new

theorem sameSymbols_reframed (old new : Resolution) (c : Crop) :
    c.SameSymbols (c.reframed old new) := by
  have hmap : ∀ (f g : UInt32 → UInt32) (e : Extent), (e.map f).map g = .full ↔ e = .full := by
    intro f g e
    cases e with
    | pixels n => exact iff_of_false nofun nofun
    | full => exact iff_of_true rfl rfl
  exact ⟨hmap _ _ _, hmap _ _ _⟩

/-- Nothing of a crop is lost by a frame that is no smaller and back. -/
theorem reframed_back {old new : Resolution} {c : Crop} (hwidth : 0 < old.width.toNat)
    (hheight : 0 < old.height.toNat) (hwider : old.width.toNat ≤ new.width.toNat)
    (hhigher : old.height.toNat ≤ new.height.toNat) (hin : c.LiesIn old) :
    (c.reframed old new).reframed new old = c := by
  have hx := side_rescaled_back hwidth hwider hin.1
  have hy := side_rescaled_back hheight hhigher hin.2
  -- All four numbers come back, and what lay in the old frame is not brought inside again.
  have hscaled : (c.reframed old new).scaled (growth new.width old.width)
      (growth new.height old.height) = c := by
    change Crop.mk _ _ _ _ = Crop.mk c.x c.y c.width c.height
    rw [Crop.mk.injEq]
    exact ⟨hx.1, hy.1, hx.2, hy.2⟩
  rw [reframed, hscaled]
  exact (inside_eq_self_iff old c).mpr hin

end Crop

/-- The crops of a store and of new pairs are the same after a change to a
    resolution that is no smaller and back, if they lay in the old one, and so is
    all else. Full extents are full in between as well. -/
theorem rescaling_back_is_lossless (s : Store ℝ) (settings : Settings ℝ) (new : Resolution)
    (hwidth : settings.resolution.width ≠ 0) (hheight : settings.resolution.height ≠ 0)
    (hwider : settings.resolution.width ≤ new.width)
    (hhigher : settings.resolution.height ≤ new.height)
    (hpairs : ∀ p ∈ s.pairs, p.crop.LiesIn settings.resolution)
    (hnew : settings.newCrop.LiesIn settings.resolution) :
    let (s', settings') := s.rescale new settings
    s'.rescale settings.resolution settings' = (s, settings) ∧
      List.Forall₂ (fun p q => p.crop.SameSymbols q.crop) s.pairs s'.pairs ∧
      settings.newCrop.SameSymbols settings'.newCrop ∧ settings'.resolution = new := by
  have hback : ∀ c : Crop, c.LiesIn settings.resolution →
      (c.reframed settings.resolution new).reframed new settings.resolution = c := fun c hc =>
    Crop.reframed_back (UInt32.pos_iff_ne_zero.mpr hwidth) (UInt32.pos_iff_ne_zero.mpr hheight)
      hwider hhigher hc
  -- The pairs are rescaled one by one, each twice.
  have hrow : (s.pairs.map fun p => { p with crop := p.crop.reframed settings.resolution new }).map
      (fun p => { p with crop := p.crop.reframed new settings.resolution }) = s.pairs := by
    rw [List.map_map]
    refine (List.map_congr_left fun p hp => ?_).trans (List.map_id _)
    exact congrArg (fun crop => { p with crop }) (hback p.crop (hpairs p hp))
  refine ⟨?_, ?_, Crop.sameSymbols_reframed _ _ _, rfl⟩
  · exact Prod.ext (congrArg (fun pairs => { s with pairs }) hrow)
      (congrArg (fun newCrop => { settings with newCrop }) (hback _ hnew))
  · exact List.forall₂_map_right_iff.mpr <|
      List.forall₂_same.mpr fun p _ => Crop.sameSymbols_reframed _ _ p.crop

/-- A pair whose crop touches the right edge, and will stand half way between two
    pixels on both of its sides. -/
noncomputable def touching : Store ℝ where
  pairs := [.ofMap (bent 1 1) ⟨3, 0, .pixels 7, .full⟩]
  parked := .empty Parked.storeLimit
  pending := none
  grid := ⟨30⟩
  engine := ⟨30⟩

/-- A frame that is half as wide again, and no higher. -/
theorem rescaling_back_is_lossless_halves :
    let settings : Settings ℝ := { Settings.initial with resolution := ⟨10, 4⟩ }
    (∀ p ∈ touching.pairs, p.crop.LiesIn settings.resolution) ∧
      settings.newCrop.LiesIn settings.resolution ∧
      let (s', settings') := touching.rescale ⟨15, 4⟩ settings
      s'.rescale ⟨10, 4⟩ settings' = (touching, settings) := by
  intro settings
  -- The crop reaches the right edge, which still counts as inside.
  have hpairs : ∀ p ∈ touching.pairs, p.crop.LiesIn settings.resolution :=
    List.forall_mem_singleton.mpr ⟨by decide, by decide⟩
  have hnew : settings.newCrop.LiesIn settings.resolution := ⟨by decide, by decide⟩
  exact ⟨hpairs, hnew, (rescaling_back_is_lossless touching settings ⟨15, 4⟩
    (show (10 : UInt32) ≠ 0 by decide) (show (4 : UInt32) ≠ 0 by decide)
    (show (10 : UInt32) ≤ 15 by decide) (show (4 : UInt32) ≤ 4 by decide) hpairs hnew).1⟩

end Retime
