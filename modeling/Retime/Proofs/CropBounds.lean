import Mathlib.Data.List.Induction
import Retime.Proofs.StoreEdits
import Retime.Scalar.Double

/-!
# Crops Stay Inside

Whether the crops of all pairs lie inside the resolution they are counted in.

Every edit that sets a crop brings it inside, and a crop that was brought
inside stays as it is when that is done again. A change of the resolution
brings all crops inside the new one. So the crops of the pairs in the store
are inside at any time, as long as every pair has been in the store.

Parked pairs have not. A change of the resolution passes them over, and a pair
that comes back has the crop it had before, counted in the old resolution.
Such a crop may be outside. `crops_inside_iff` says that this is the one way in
which a crop gets outside, and that it needs a change of the resolution while a
pair is parked.

## Main definitions

* `Event.Truthful`: An event that counts crops in the present resolution.
* `Project.Orderly`: A run of such events.
* `Project.Within`: All crops of the store are inside the resolution.
* `Project.AllWithin`: Those of parked pairs are as well.

## Theorems

* `Crop.inside_inside`: A crop is brought inside once and for all.
* `Project.after_within`: An event keeps crops inside, unless it brings one
  back that is not.
* `Project.after_allWithin`: An event keeps the crops of parked pairs inside too,
  unless it rescales the others.
* `crops_inside_iff`: Crops are inside throughout a run if and only if those
  that are brought back are, and if nothing is parked when the resolution
  changes.
-/

namespace Retime

theorem toNat_min (a b : UInt32) : (min a b).toNat = min a.toNat b.toNat := by
  rw [show min a b = if a ≤ b then a else b from rfl, Nat.min_def]
  by_cases h : a ≤ b
  · rw [if_pos h, if_pos (UInt32.le_iff_toNat_le.mp h)]
  · rw [if_neg h, if_neg (fun hle => h (UInt32.le_iff_toNat_le.mpr hle))]

namespace Crop

/-- The corner is pulled back as far as numbers without bounds ask for. -/
theorem toNat_pullBack (corner size whole : UInt32) :
    (pullBack corner size whole).toNat =
      min corner.toNat (whole.toNat - min size.toNat whole.toNat) := by
  unfold pullBack
  have hle : min size whole ≤ whole := by
    rw [UInt32.le_iff_toNat_le, toNat_min]
    omega
  rw [toNat_min, UInt32.toNat_sub_of_le _ _ hle, toNat_min]

theorem toNat_sub_pullBack (corner size whole : UInt32) :
    (whole - pullBack corner size whole).toNat =
      whole.toNat - (pullBack corner size whole).toNat := by
  refine UInt32.toNat_sub_of_le _ _ ?_
  rw [UInt32.le_iff_toNat_le, toNat_pullBack]
  omega

/-- What is left of a size behind its corner is all of it, or all there is. -/
theorem toNat_rest (corner size whole : UInt32) :
    (min size (whole - pullBack corner size whole)).toNat = min size.toNat whole.toNat := by
  rw [toNat_min, toNat_sub_pullBack, toNat_pullBack]
  omega

/-- Along one side, a corner and a size that were brought inside stay. -/
theorem pullBack_pullBack (corner size whole : UInt32) :
    pullBack (pullBack corner size whole) (min size (whole - pullBack corner size whole)) whole =
      pullBack corner size whole := by
  rw [← UInt32.toNat_inj, toNat_pullBack, toNat_rest, toNat_pullBack]
  omega

theorem rest_rest (corner size whole : UInt32) :
    min (min size (whole - pullBack corner size whole)) (whole - pullBack corner size whole) =
      min size (whole - pullBack corner size whole) := by
  rw [← UInt32.toNat_inj, toNat_min, toNat_min]
  omega

theorem pullBack_whole (corner whole : UInt32) : pullBack corner whole whole = 0 := by
  rw [← UInt32.toNat_inj, toNat_pullBack]
  change min corner.toNat (whole.toNat - min whole.toNat whole.toNat) = 0
  omega

/-- Along one side, what was brought inside stays. -/
theorem side_side (corner : UInt32) (extent : Extent) (whole : UInt32) :
    let x := pullBack corner (extent.size whole) whole
    let e := extent.map fun n => min n (whole - x)
    pullBack x (e.size whole) whole = x ∧ e.map (fun n => min n (whole - x)) = e := by
  cases extent with
  | pixels n =>
      exact ⟨pullBack_pullBack corner n whole, congrArg Extent.pixels (rest_rest corner n whole)⟩
  | full =>
      refine ⟨?_, rfl⟩
      change pullBack (pullBack corner whole whole) whole whole = pullBack corner whole whole
      rw [pullBack_whole, pullBack_whole]

/-- A crop is brought inside once and for all. -/
theorem inside_inside (r : Resolution) (c : Crop) : (c.inside r).inside r = c.inside r := by
  -- Both sides are pulled back and cut in the same way, the one apart from the other.
  have hx : pullBack (c.inside r).x ((c.inside r).width.size r.width) r.width = (c.inside r).x :=
    (side_side c.x c.width r.width).1
  have hy : pullBack (c.inside r).y ((c.inside r).height.size r.height) r.height =
      (c.inside r).y :=
    (side_side c.y c.height r.height).1
  change Crop.mk _ _ _ _ = Crop.mk _ _ _ _
  rw [Crop.mk.injEq]
  refine ⟨hx, hy, ?_, ?_⟩
  · rw [hx]
    exact (side_side c.x c.width r.width).2
  · rw [hy]
    exact (side_side c.y c.height r.height).2

end Crop

/-- All crops of the store are inside a resolution. -/
def Store.Within {α : Type} (r : Resolution) (s : Store α) : Prop :=
  ∀ p ∈ s.pairs, p.crop.inside r = p.crop

/-- An event that counts crops in the resolution of the session, which nothing
    but a rescaling changes. -/
def Event.Truthful {α : Type} (p : Project α) : Event α → Prop
  | .edit (.setCrop _ _ r) => r = none ∨ r = some p.settings.resolution
  | .edit _ => True
  | .choose settings => settings.resolution = p.settings.resolution

namespace Project

variable {α : Type} [Scalar α]

omit [Scalar α] in
/-- All crops of the store are inside the resolution of the session. -/
def Within (p : Project α) : Prop := p.store.Within p.settings.resolution

omit [Scalar α] in
/-- The pair that would be brought back has its crop inside. -/
def BringsInside (p : Project α) : Prop :=
  ∀ q, p.store.parked.peek = some q → q.crop.inside p.settings.resolution = q.crop

/-- A run of events that count crops in the resolution of the session. -/
def Orderly (p : Project α) (es : List (Event α)) : Prop :=
  ∀ pre e, pre ++ [e] <+: es → e.Truthful (p.run pre)

/-- Events that are truthful in any session make an orderly run. -/
theorem orderly_of_forall {p : Project α} {es : List (Event α)}
    (h : ∀ e ∈ es, ∀ q : Project α, e.Truthful q) : p.Orderly es := by
  intro pre e hpre
  exact h e (hpre.subset (List.mem_append_right pre (List.mem_singleton_self e))) _

/-- A step that rescales nothing keeps crops inside, unless it brings one back
    that is not. -/
theorem Step.within {e : Edit α} {p q : Project α} (h : Step e p q)
    (hresolution : e.resolution p.settings = p.settings.resolution)
    (hchosen : e.chosen p.settings = p.settings.resolution)
    (hbrought : ∀ r, e.brought p.store = some r → r.crop.inside p.settings.resolution = r.crop)
    (hp : p.Within) : q.Within := by
  intro c hc
  -- The pair is inside wherever it comes from.
  rw [h.resolution, hchosen]
  have horigin := h.store.pairs c hc
  rw [hresolution] at horigin
  cases horigin with
  | kept hmem _ => exact hp _ hmem
  | cropped c _ _ => exact Crop.inside_inside _ c
  | @overridden r _ hmem _ => exact hp r hmem
  | @remapped r r' hmem hremapped =>
      have hcrop : r'.crop = r.crop := by
        rw [show r' = _ from hremapped]
      change r'.crop.inside _ = r'.crop
      rw [hcrop]
      exact hp r hmem
  | @fresh r c hr =>
      change r.crop.inside _ = r.crop
      rw [hr]
      exact Crop.inside_inside _ c
  | @returned r hr => exact hbrought r hr

/-- Rescaling leaves all crops inside, wherever they were. -/
theorem rescale_within (p : Project α) (r : Resolution) :
    (p.after (.edit (.rescale r))).Within := by
  intro q hq
  rcases List.mem_map.mp hq with ⟨c, -, rfl⟩
  exact Crop.inside_inside r _

/-- An event keeps crops inside, unless it brings one back that is not. -/
theorem after_within {p : Project α} (hp : p.Within) {e : Event α} (he : e.Truthful p)
    (hback : e = .edit .redoPair → p.BringsInside) : (p.after e).Within := by
  -- Three edits are told apart: one chooses the
  -- resolution, one names it, one brings a crop back.
  cases e with
  | choose settings =>
      change p.store.Within settings.resolution
      rw [show settings.resolution = p.settings.resolution from he]
      exact hp
  | edit e =>
      rcases after_edit p e with hstep | hstay
      · cases e with
        | rescale r => exact rescale_within p r
        | setCrop index crop r =>
            refine hstep.within ?_ rfl (fun q hq => nomatch hq) hp
            change r.getD p.settings.resolution = p.settings.resolution
            rcases he with rfl | rfl <;> rfl
        | redoPair => exact hstep.within rfl rfl (hback rfl) hp
        | _ => exact hstep.within rfl rfl (fun q hq => nomatch hq) hp
      · rw [hstay]
        exact hp

/-- A pair that is brought back is in the store then. -/
theorem mem_after_redoPair {p : Project α} {q : Pair α} (h : p.store.parked.peek = some q) :
    Store.timed p.store.engine q ∈ (p.after (.edit .redoPair)).store.pairs := by
  have hredo := Store.redoPair_eq p.store
  rcases List.head?_eq_some_iff.mp h with ⟨qs, hqs⟩
  rw [Parked.pop, hqs] at hredo
  have hafter : p.after (.edit .redoPair) =
      InPlace.left (EStateM.bind (onStore Store.redoPair) (fun b => pure (Outcome.place b)) p) :=
    rfl
  rw [hafter, EStateM.bind, onStore, hredo]
  exact List.mem_append_right _ (List.mem_singleton_self _)

/-- The crop of a pair that is brought back is what it was. -/
theorem bringsInside_of_within {p : Project α} (h : (p.after (.edit .redoPair)).Within) :
    p.BringsInside := by
  intro q hq
  have hcrop := h _ (mem_after_redoPair hq)
  -- Bringing a pair back leaves the resolution alone, done or refused.
  rcases after_edit p .redoPair with hstep | hstay
  · rw [hstep.resolution] at hcrop
    exact hcrop
  · rw [hstay] at hcrop
    exact hcrop

end Project

/-- All crops are inside, those of parked pairs too. -/
structure Project.AllWithin {α : Type} (p : Project α) : Prop where
  store : p.Within
  parked : ∀ q ∈ p.store.parked.pairs, q.crop.inside p.settings.resolution = q.crop

/-- An event keeps all crops inside if nothing is parked when it rescales. -/
theorem Project.after_allWithin {α : Type} [Scalar α] {p : Project α} (hp : p.AllWithin)
    {e : Event α} (he : e.Truthful p)
    (hempty : ∀ r, e = .edit (.rescale r) → p.store.parked.pairs = []) :
    (p.after e).AllWithin := by
  refine ⟨after_within hp.store he fun _ q hq => hp.parked q (List.mem_of_mem_head? hq), ?_⟩
  have hboth : ∀ q, q ∈ p.store.parked.pairs ∨ q ∈ p.store.pairs →
      q.crop.inside p.settings.resolution = q.crop := by
    intro q hq
    rcases hq with hq | hq
    · exact hp.parked q hq
    · exact hp.store q hq
  intro q hq
  cases e with
  | choose settings =>
      rw [show (p.after (.choose settings)).settings.resolution = p.settings.resolution from he]
      exact hp.parked q hq
  | edit e =>
      rcases after_edit p e with hstep | hstay
      · rw [hstep.resolution]
        cases e with
        | rescale r =>
            -- Rescaling leaves the parked pairs alone, of which there are none.
            have hnone : q ∈ p.store.parked.pairs := hq
            rw [hempty r rfl] at hnone
            exact nomatch hnone
        -- What is parked now was parked before or was in the store.
        | _ => exact hboth q (hstep.store.parked q hq)
      · rw [hstay] at hq ⊢
        exact hp.parked q hq

/-- Crops are inside throughout a run in which nothing is parked when the
    resolution changes. -/
theorem Project.allWithin_of_unparked {α : Type} [Scalar α] {p : Project α} (hp : p.AllWithin)
    {es : List (Event α)} (hes : p.Orderly es)
    (hunparked : ∀ pre r, pre ++ [.edit (.rescale r)] <+: es →
      (p.run pre).store.parked.pairs = []) {pre : List (Event α)} (hpre : pre <+: es) :
    (p.run pre).AllWithin := by
  induction pre using List.reverseRecOn with
  | nil => exact hp
  | append_singleton pre e ih =>
      have hshort : pre <+: es := (List.prefix_append pre [e]).trans hpre
      rw [run_concat]
      exact after_allWithin (ih hshort) (hes pre e hpre) fun r he => hunparked pre r (he ▸ hpre)

/-- Crops are inside throughout a run if and only if every pair that is brought
    back has its crop inside at that time. They are inside, and those of parked
    pairs too, if nothing is parked whenever the resolution changes. -/
theorem crops_inside_iff {α : Type} [Scalar α] (rate : α) (s : Store α) (settings : Settings α)
    (hnew : Store.empty rate = .ok s) (es : List (Event α))
    (hes : Project.Orderly ⟨s, settings⟩ es) :
    ((∀ pre, pre <+: es → (Project.run ⟨s, settings⟩ pre).Within) ↔
      ∀ pre, pre ++ [.edit .redoPair] <+: es → (Project.run ⟨s, settings⟩ pre).BringsInside) ∧
    ((∀ pre r, pre ++ [.edit (.rescale r)] <+: es →
        (Project.run ⟨s, settings⟩ pre).store.parked.pairs = []) →
      ∀ pre, pre <+: es → (Project.run ⟨s, settings⟩ pre).AllWithin) := by
  -- There is no pair to begin with.
  have hstart : Project.AllWithin ⟨s, settings⟩ := by
    rcases Store.empty_eq_ok hnew with ⟨g, rfl⟩
    exact ⟨(fun p hp => nomatch hp), (fun p hp => nomatch hp)⟩
  refine ⟨⟨fun h pre hpre => ?_, fun h pre hpre => ?_⟩, fun hunparked pre hpre =>
    Project.allWithin_of_unparked hstart hes hunparked hpre⟩
  · refine Project.bringsInside_of_within ?_
    rw [← Project.run_concat]
    exact h _ hpre
  · -- The induction adds the latest event, as what is asked of it depends on
    -- the session it meets.
    induction pre using List.reverseRecOn with
    | nil => exact hstart.store
    | append_singleton pre e ih =>
        have hshort : pre <+: es := (List.prefix_append pre [e]).trans hpre
        rw [Project.run_concat]
        exact Project.after_within (ih hshort) (hes pre e hpre) fun he => h pre (he ▸ hpre)

/-- A pair is created, cropped and parked. -/
def cropAndPark : List (Event Float) :=
  [.edit (.add 1.0 2.0 none), .edit (.setCrop 0 ⟨1000, 500, .pixels 900, .pixels 500⟩ none),
    .edit .undoPair]

/-- The run counts its crops in the resolution of the session, if what follows
    does so in any session. -/
theorem orderly_cropAndPark (p : Project Float) (es : List (Event Float))
    (hes : ∀ e ∈ es, ∀ q : Project Float, e.Truthful q) : p.Orderly (cropAndPark ++ es) := by
  refine Project.orderly_of_forall (List.forall_mem_append.mpr ⟨fun e he q => ?_, hes⟩)
  simp only [cropAndPark, List.mem_cons, List.not_mem_nil, or_false] at he
  rcases he with rfl | rfl | rfl
  · trivial
  · exact Or.inl rfl
  · trivial

/-- The crop of the parked pair is inside, and so it is when it comes back. -/
theorem crops_inside_iff_parked :
    ∃ s : Store Float, Store.empty 30.0 = .ok s ∧
      Project.Orderly ⟨s, .initial⟩ (cropAndPark ++ [.edit .redoPair]) ∧
      ∀ pre, pre <+: cropAndPark ++ [.edit .redoPair] → (Project.run ⟨s, .initial⟩ pre).Within := by
  have horderly : ∀ p : Project Float, p.Orderly (cropAndPark ++ [.edit .redoPair]) := by
    intro p
    refine orderly_cropAndPark p _ ?_
    simp [Event.Truthful]
  refine ⟨_, rfl, horderly _, ?_⟩
  refine (crops_inside_iff 30.0 _ .initial rfl _ (horderly _)).1.mpr fun pre hpre => ?_
  rcases List.prefix_concat_iff.mp hpre with hpre | hpre
  · -- Before the redoing, the parked pair has the crop that was set.
    rw [List.append_cancel_right hpre]
    intro q hq
    cases hq
    decide
  · have hmem := hpre.subset (List.mem_append_right pre (List.mem_singleton_self _))
    simp [cropAndPark] at hmem

/-- The crop of the parked pair is outside, once the resolution is smaller. -/
theorem crops_outside_of_parked :
    ∃ s : Store Float, Store.empty 30.0 = .ok s ∧
      let es := cropAndPark ++ [.edit (.rescale ⟨640, 360⟩), .edit .redoPair]
      Project.Orderly ⟨s, .initial⟩ es ∧ ¬ (Project.run ⟨s, .initial⟩ es).Within := by
  refine ⟨_, rfl, orderly_cropAndPark _ _ ?_, ?_⟩
  · simp [Event.Truthful]
  · unfold Project.Within Store.Within
    decide

end Retime
