import Mathlib.Data.List.Induction
import Retime.Proofs.DoubleWhole
import Retime.Proofs.PairRecords
import Retime.Proofs.StoreEdits

/-!
# Pending Starts

When a start that was placed can be completed.

A marker is brought down to its frame before anything is asked of it. Its end is
then compared and made into a pair, which refuses what is no number. Its start is
recorded as it is. So a time that is no number, or that is too large for its
frames to be counted, is recorded as a start that no end suits, and since an end
that is refused leaves the start where it is, all further markers are refused
until the start is given up.

That is the only way in which a start gets lost. `after_pends` lists what any
event may do to a start, and the rest follows from the four cases: all starts of
a run are finite if and only if all that are recorded are, and a start that is
not finite stays until it is cancelled or undone.

## Main definitions

* `Store.Completes`: A marker that makes a pair of a start.
* `Project.Pends`: What an event does to a pending start.
* `Event.GivesUp`: An event that gives a pending start up.

## Theorems

* `Store.place_end`: What a second marker does.
* `Project.after_pends`: What any event does to a pending start.
* `Project.run_pending_finite_iff`, `Project.run_pending_lost`: What becomes of
  starts in a run.
* `FrameGrid.isFinite_of_snapDown`, `FrameGrid.isFinite_snapDown`: Which times
  are brought down to a number.
* `pending_starts_finite_iff`: When all pending starts are finite, and what
  becomes of the others.
* `pending_start_overflows`: Not all of them are.
-/

namespace Retime

/-! ### Completing a start -/

section Completing

variable {α : Type} [Scalar α]

/-- What a map of one speed needs to be one. -/
theorem SpeedMap.constant_accepted_iff [OrderedScalar α] {start stop speed : α} :
    (∃ m, constant start stop speed = .ok m) ↔
      Scalar.isFinite start = true ∧ Scalar.isFinite stop = true ∧ ¬ stop ≤ start ∧
        Scalar.isPositive speed = true := by
  constructor
  · rintro ⟨m, hm⟩
    rcases ofList_eq_ok hm with ⟨hpoints, hsound⟩
    -- The map that is accepted is the one of these two points.
    obtain rfl : plain start stop speed = m := points_inj hpoints.symm
    exact ⟨hsound.finite_start, hsound.finite_stop, hsound.span, isPositive_of_constant hm⟩
  · rintro ⟨hstart, hstop, hspan, hspeed⟩
    have hsound : (plain start stop speed).Sound :=
      { finite := forall_mem_points.mpr ⟨hstart, (fun _ hp => nomatch hp), hstop⟩
        speed := forall_mem_points.mpr ⟨hspeed, (fun _ hp => nomatch hp), hspeed⟩
        sorted := pairwise_points.mpr ⟨(fun _ hp => nomatch hp),
          OrderedScalar.le_of_not_le hstart hstop hspan, List.Pairwise.nil,
          fun _ hp => nomatch hp⟩
        span := hspan }
    exact ⟨_, ofList_sound hsound⟩

/-- A pair needs two numbers in their order. -/
theorem Pair.make_refused {start stop speed : α} {crop : Crop}
    (h : ¬ (Scalar.isFinite start = true ∧ Scalar.isFinite stop = true ∧ ¬ stop ≤ start)) :
    Pair.make start stop speed crop = .error (.endBeforeStart stop start) := by
  unfold Pair.make
  refine if_pos ?_
  by_contra hc
  simp only [Bool.or_eq_true, Bool.not_eq_true', Bool.and_eq_false_iff, decide_eq_true_eq,
    not_or, Bool.not_eq_false] at hc
  exact h ⟨hc.1.1, hc.1.2, hc.2⟩

theorem Pair.make_accepted_iff [OrderedScalar α] (start stop speed : α) (crop : Crop) :
    (∃ p, Pair.make start stop speed crop = .ok p) ↔
      Scalar.isFinite start = true ∧ Scalar.isFinite stop = true ∧ ¬ stop ≤ start ∧
        Scalar.isPositive speed = true := by
  rw [← SpeedMap.constant_accepted_iff]
  -- The pair checks its ends before its map does, and finds the same.
  by_cases hspan : Scalar.isFinite start = true ∧ Scalar.isFinite stop = true ∧ ¬ stop ≤ start
  · rcases hspan with ⟨hstart, hstop, hless⟩
    have hgood : ¬ (!(Scalar.isFinite start && Scalar.isFinite stop) ||
        decide (stop ≤ start)) = true := by
      simp [hstart, hstop, hless]
    unfold Pair.make
    rw [if_neg hgood]
    constructor
    · rintro ⟨p, hp⟩
      rcases bind_ok_iff.mp hp with ⟨_, -, hp⟩
      rcases bind_ok_iff.mp hp with ⟨m, hm, -⟩
      exact ⟨m, hm⟩
    · rintro ⟨m, hm⟩
      have hcheck : SpeedMap.checkSpeed speed = .ok () :=
        if_pos (SpeedMap.isPositive_of_constant hm)
      rw [hcheck, hm]
      exact ⟨_, rfl⟩
  · rw [Pair.make_refused hspan, SpeedMap.constant_accepted_iff]
    exact iff_of_false (fun ⟨_, hp⟩ => nomatch hp)
      fun ⟨hstart, hstop, hless, _⟩ => hspan ⟨hstart, hstop, hless⟩

namespace Store

variable {s : Store α} {settings : Settings α} {start time : α}

/-- What creating a pair does, done or refused. -/
theorem add_eq (start stop : α) (settings : Settings α) (speed : Option α) (s : Store α) :
    add start stop settings speed s =
      match Pair.make start stop (speed.getD settings.newSpeed)
        (settings.newCrop.inside settings.resolution) with
      | .error cause => .error (.marker cause) s
      | .ok p => .ok s.pairs.length
          { s with pairs := s.pairs ++ [timed s.engine p], parked := s.parked.clear } := by
  -- Only making the pair can fail, and nothing has changed by then.
  change EStateM.bind (marking (Pair.make start stop (speed.getD settings.newSpeed)
    (settings.newCrop.inside settings.resolution))) _ s = _
  unfold EStateM.bind marking
  cases Pair.make start stop (speed.getD settings.newSpeed)
    (settings.newCrop.inside settings.resolution) with
  | error cause => rfl
  | ok p =>
      have hlast : (s.pairs ++ [timed s.engine p]).length - 1 = s.pairs.length := by
        rw [List.length_append, List.length_singleton, Nat.add_sub_cancel]
      change EStateM.Result.ok ((s.pairs ++ [timed s.engine p]).length - 1) _ = _
      rw [hlast]

/-- The second marker does what making a pair of the two does. That it is not
    behind the first is asked twice, with one answer. -/
theorem place_end (time : α) (settings : Settings α) (h : s.pending = some start) :
    place time settings s =
      match Pair.make start (s.grid.snapDown time) settings.newSpeed
        (settings.newCrop.inside settings.resolution) with
      | .error cause => .error (.marker cause) s
      | .ok p => .ok (.pair s.pairs.length)
          { s with pairs := s.pairs ++ [timed s.engine p], parked := s.parked.clear,
                   pending := none } := by
  rw [place_eq, h]
  dsimp only
  -- A marker that is not behind the start is refused either way, with one cause.
  by_cases hle : s.grid.snapDown time ≤ start
  · rw [if_pos hle, Pair.make_refused fun h => h.2.2 hle]
  · rw [if_neg hle, add_eq]
    dsimp only [Option.getD_none]
    cases Pair.make start (s.grid.snapDown time) settings.newSpeed
      (settings.newCrop.inside settings.resolution) <;> rfl

/-- A marker that makes a pair of a start. -/
structure Completes (s : Store α) (settings : Settings α) (first time : α) : Prop where
  start : Scalar.isFinite first = true
  stop : Scalar.isFinite (s.grid.snapDown time) = true
  order : ¬ s.grid.snapDown time ≤ first
  speed : Scalar.isPositive settings.newSpeed = true

/-- A marker makes a pair of the pending start, or is refused and leaves the
    store as it was. -/
theorem place_end_cases [OrderedScalar α] (time : α) (settings : Settings α)
    (h : s.pending = some start) :
    (s.Completes settings start time ∧ ∃ t, place time settings s = .ok (.pair s.pairs.length) t ∧
        t.pending = none) ∨
      ¬ s.Completes settings start time ∧
        ∃ cause, place time settings s = .error (.marker cause) s := by
  rw [place_end time settings h]
  have hmake := Pair.make_accepted_iff start (s.grid.snapDown time) settings.newSpeed
    (settings.newCrop.inside settings.resolution)
  cases hp : Pair.make start (s.grid.snapDown time) settings.newSpeed
      (settings.newCrop.inside settings.resolution) with
  | ok p =>
      rcases hmake.mp ⟨p, hp⟩ with ⟨hstart, hstop, horder, hspeed⟩
      exact Or.inl ⟨⟨hstart, hstop, horder, hspeed⟩, _, rfl, rfl⟩
  | error cause =>
      refine Or.inr ⟨fun hc => ?_, cause, rfl⟩
      -- All that a pair needs is given, so making it cannot have failed.
      rcases hmake.mpr ⟨hc.start, hc.stop, hc.order, hc.speed⟩ with ⟨p, hp'⟩
      rw [hp] at hp'
      cases hp'

/-- No marker makes a pair of a start that is not finite. -/
theorem place_end_refused (time : α) (settings : Settings α) (h : s.pending = some start)
    (hstart : Scalar.isFinite start = false) :
    place time settings s =
      .error (.marker (.endBeforeStart (s.grid.snapDown time) start)) s := by
  rw [place_end time settings h, Pair.make_refused fun hspan => ?_]
  rw [hstart] at hspan
  exact Bool.false_ne_true hspan.1

end Store

end Completing
/-! ### What else happens to a start -/

/-- An event that gives a pending start up. -/
def Event.GivesUp {α : Type} : Event α → Prop
  | .edit .cancel => True
  | .edit .undoPair => True
  | _ => False

namespace Store

variable {α : Type}

theorem marking_leaves {β : Type} (r : Except (MarkerError α) β) :
    InPlace.Leaves (σ := Store α) pending (marking r) :=
  InPlace.leaves_demand _

theorem onPair_leaves {β : Type} (index : Nat) (f : InPlace (MarkerError α) (Pair α) β) :
    InPlace.Leaves pending (onPair index f) := by
  intro s
  unfold onPair
  cases s.pair index with
  | error e => rfl
  | ok p =>
      dsimp only
      cases f p <;> rfl

theorem onPairs_leaves (f : InPlace (MarkerError α) (Pair α) Unit) :
    InPlace.Leaves pending (onPairs f) := by
  intro s
  unfold onPairs
  cases InPlace.each f s.pairs <;> rfl

theorem delete_leaves (index : Nat) : InPlace.Leaves pending (delete (α := α) index) := by
  intro s
  change (InPlace.left (EStateM.bind (InPlace.demand (s.pair index)) _ s)).pending = _
  unfold EStateM.bind InPlace.demand
  cases s.pair index <;> rfl

theorem reorder_leaves (source target : Nat) :
    InPlace.Leaves pending (reorder (α := α) source target) := by
  intro s
  change (InPlace.left (EStateM.bind (InPlace.demand (s.pair source)) _ s)).pending = _
  unfold EStateM.bind InPlace.demand
  cases s.pair source with
  | error e => rfl
  | ok p =>
      change (InPlace.left (EStateM.bind (InPlace.demand (s.pair target)) _ s)).pending = _
      unfold EStateM.bind InPlace.demand
      cases s.pair target <;> rfl

theorem undoPair_pending (s : Store α) : (InPlace.left (undoPair s)).pending = none := by
  rw [undoPair_eq]
  split
  · rfl
  · case _ hnone _ => exact hnone
  · case _ hnone _ => exact hnone

variable [Scalar α]

theorem add_leaves (start stop : α) (settings : Settings α) (speed : Option α) :
    InPlace.Leaves pending (add start stop settings speed) := by
  intro s
  rw [add_eq]
  cases Pair.make start stop (speed.getD settings.newSpeed)
    (settings.newCrop.inside settings.resolution) <;> rfl

theorem redoPair_leaves : InPlace.Leaves pending (redoPair (α := α)) := by
  intro s
  rw [redoPair_eq]
  cases s.parked.pop <;> rfl

theorem setRate_leaves (rate : α) : InPlace.Leaves pending (setRate rate) := by
  intro s
  rw [setRate_eq]
  cases (gridOf rate : Except (EditError α) (FrameGrid α)) <;> rfl

end Store

namespace Project

variable {α : Type}

/-- An edit of the store leaves what the edit of it leaves. -/
theorem left_onStore {β : Type} (f : InPlace (EditError α) (Store α) β) (k : β → Outcome α)
    (p : Project α) :
    (InPlace.left ((onStore f >>= fun b => pure (k b)) p)).store = InPlace.left (f p.store) := by
  change (InPlace.left (EStateM.bind (onStore f) (fun b => pure (k b)) p)).store = _
  unfold EStateM.bind onStore
  cases f p.store <;> rfl

variable [Scalar α]

/-- What an event may do to the pending start of `p`, if it leaves `q`. -/
inductive Pends (p q : Project α) : Event α → Prop
  | kept {e} : q.store.pending = p.store.pending → Pends p q e
  | placed {time} : p.store.pending = none →
      q.store.pending = some (p.store.grid.snapDown time) → Pends p q (.edit (.place time))
  | completed {time} (start : α) : p.store.pending = some start →
      p.store.Completes p.settings start time → q.store.pending = none →
      Pends p q (.edit (.place time))
  | givenUp {e} : e.GivesUp → q.store.pending = none → Pends p q e

/-- Placing a marker in a session. -/
theorem edit_place (p : Project α) (time : α) :
    edit (.place time) p =
      match Store.place time p.settings p.store with
      | .ok b store => .ok (.placed b) { p with store }
      | .error e store => .error e { p with store } := by
  change EStateM.bind (onStore (Store.place time p.settings))
    (fun b => pure (Outcome.placed b)) p = _
  unfold EStateM.bind onStore
  cases Store.place time p.settings p.store <;> rfl

/-- What a marker does to a pending start. -/
theorem after_place_pends [OrderedScalar α] (p : Project α) (time : α) :
    Pends p (p.after (.edit (.place time))) (.edit (.place time)) := by
  have hafter : p.after (.edit (.place time)) = InPlace.left (edit (.place time) p) := rfl
  rw [hafter, edit_place]
  -- A first marker starts, and a second one ends or leaves all as it was.
  cases h : p.store.pending with
  | none =>
      rw [Store.place_eq, h]
      exact .placed h rfl
  | some start =>
      rcases Store.place_end_cases time p.settings h with ⟨hc, t, ht, hnone⟩ | ⟨-, cause, hrefused⟩
      · rw [ht]
        exact .completed start h hc hnone
      · rw [hrefused]
        exact .kept rfl

/-- What any event does to a pending start. -/
theorem after_pends [OrderedScalar α] (p : Project α) (e : Event α) : Pends p (p.after e) e := by
  have hkept : ∀ {β : Type} {f : InPlace (EditError α) (Store α) β} {k : β → Outcome α},
      InPlace.Leaves Store.pending f →
      (InPlace.left ((onStore f >>= fun b => pure (k b)) p)).store.pending = p.store.pending := by
    intro β f k hf
    rw [left_onStore]
    exact hf p.store
  -- An edit of one pair looks at the store first.
  have hpair : ∀ {β : Type} (index : Nat)
      (f : Store α → InPlace (MarkerError α) (Pair α) β),
      InPlace.Leaves Store.pending (get >>= fun s => Store.onPair index (f s)) :=
    fun index f => InPlace.leaves_get.bind fun s => Store.onPair_leaves index (f s)
  cases e with
  | choose settings => exact .kept rfl
  | edit e =>
      cases e with
      | place time => exact after_place_pends p time
      | cancel => exact .givenUp trivial rfl
      | undoPair =>
          have hleft : (p.after (.edit .undoPair)).store = InPlace.left (Store.undoPair p.store) :=
            left_onStore Store.undoPair .undone p
          refine .givenUp trivial ?_
          rw [hleft, Store.undoPair_pending]
      | add start stop speed => exact .kept (hkept (Store.add_leaves start stop p.settings speed))
      | move index side time => exact .kept (hkept (hpair index _))
      | undoMove index => exact .kept (hkept (hpair index _))
      | redoMove index => exact .kept (hkept (hpair index _))
      | delete index => exact .kept (hkept (Store.delete_leaves index))
      | reorder source target => exact .kept (hkept (Store.reorder_leaves source target))
      | redoPair => exact .kept (hkept Store.redoPair_leaves)
      | setSpeed index speed => exact .kept (hkept (hpair index _))
      | setCrop index crop resolution => exact .kept (hkept (Store.onPair_leaves index _))
      | setOverrides index overrides => exact .kept (hkept (Store.onPair_leaves index _))
      | replaceMap index map => exact .kept (hkept (hpair index _))
      | setAllSpeeds speed =>
          exact .kept (hkept ((Store.marking_leaves _).bind fun _ =>
            InPlace.leaves_get.bind fun _ => Store.onPairs_leaves _))
      | setAllCrops crop => exact .kept rfl
      | rescale resolution => exact .kept rfl
      | setRate rate => exact .kept (hkept (Store.setRate_leaves rate))

end Project

/-! ### Runs -/

/-- No start is pending in a new store. -/
theorem Store.ofPairs_pending {α : Type} [Scalar α] {pairs : List (Pair α)} {rate : α} {s : Store α}
    (h : ofPairs pairs rate = .ok s) : s.pending = none := by
  rcases bind_ok_iff.mp h with ⟨t, ht, hs⟩
  rcases empty_eq_ok ht with ⟨g, rfl⟩
  cases hs
  rfl

namespace Project

variable {α : Type} [Scalar α] {p : Project α}

/-- The first of two markers is recorded where it is brought down to. -/
theorem pending_after_place (h : p.store.pending = none) (time : α) :
    (p.after (.edit (.place time))).store.pending = some (p.store.grid.snapDown time) := by
  have hafter : p.after (.edit (.place time)) = InPlace.left (edit (.place time) p) := rfl
  rw [hafter, edit_place, Store.place_eq, h]
  rfl

variable [OrderedScalar α]

/-- All starts of a run are finite if and only if all that are recorded are. -/
theorem run_pending_finite_iff (h : p.store.pending = none) (es : List (Event α)) :
    (∀ pre, pre <+: es → ∀ start ∈ (p.run pre).store.pending, Scalar.isFinite start = true) ↔
      ∀ pre time, pre ++ [.edit (.place time)] <+: es → (p.run pre).store.pending = none →
        Scalar.isFinite ((p.run pre).store.grid.snapDown time) = true := by
  constructor
  · intro hall pre time hpre hnone
    refine hall _ hpre _ ?_
    rw [run_concat, pending_after_place hnone, Option.mem_some_iff]
  · intro hrecorded pre hpre
    induction pre using List.reverseRecOn with
    | nil =>
        intro start hstart
        rw [show p.run [] = p from rfl, h] at hstart
        cases hstart
    | append_singleton pre e ih =>
        have hshort : pre <+: es := (List.prefix_append pre [e]).trans hpre
        intro start hstart
        rw [run_concat] at hstart
        -- A start that is pending now was before, or is recorded by this event.
        cases after_pends (p.run pre) e with
        | kept hkept =>
            rw [hkept] at hstart
            exact ih hshort start hstart
        | placed hnone hplaced =>
            rw [hplaced, Option.mem_some_iff] at hstart
            rw [← hstart]
            exact hrecorded pre _ hpre hnone
        | completed _ _ _ hnone =>
            rw [hnone] at hstart
            cases hstart
        | givenUp _ hnone =>
            rw [hnone] at hstart
            cases hstart

/-- A start that is not finite stays until it is given up. -/
theorem run_pending_lost {start : α} (h : p.store.pending = some start)
    (hstart : Scalar.isFinite start = false) {es : List (Event α)}
    (hes : ∀ e ∈ es, ¬ e.GivesUp) : (p.run es).store.pending = some start := by
  induction es generalizing p with
  | nil => exact h
  | cons e es ih =>
      rw [List.forall_mem_cons] at hes
      refine ih ?_ hes.2
      -- An event could only complete the start if it were finite.
      cases after_pends p e with
      | kept hkept => rw [hkept, h]
      | placed hnone _ =>
          rw [h] at hnone
          cases hnone
      | completed first hfirst hc _ =>
          rw [h] at hfirst
          rw [Option.some.inj hfirst, hc.start] at hstart
          cases hstart
      | givenUp hgives _ => exact absurd hgives hes.1

/-- Which markers complete a start. -/
theorem edit_place_completes_iff {start : α} (h : p.store.pending = some start) (time : α) :
    (∃ i q, edit (.place time) p = .ok (.placed (.pair i)) q ∧ q.store.pending = none) ↔
      p.store.Completes p.settings start time := by
  rw [edit_place]
  rcases Store.place_end_cases time p.settings h with ⟨hc, t, ht, hnone⟩ | ⟨hc, cause, hrefused⟩
  · rw [ht]
    exact iff_of_true ⟨_, _, rfl, hnone⟩ hc
  · rw [hrefused]
    exact iff_of_false (fun ⟨_, _, hok, _⟩ => nomatch hok) hc

omit [OrderedScalar α] in
/-- A start that is not finite refuses every marker. -/
theorem edit_place_refused {start : α} (h : p.store.pending = some start)
    (hstart : Scalar.isFinite start = false) (time : α) :
    edit (.place time) p =
      .error (.marker (.endBeforeStart (p.store.grid.snapDown time) start)) p := by
  rw [edit_place, Store.place_end_refused time p.settings h hstart]

end Project

/-! ### Times that are brought down to a number -/

namespace FrameGrid

/-- A grid has the rate that was asked for, which is positive. -/
theorem ofRate_eq_ok_positive {α : Type} [Scalar α] {rate : α} {g : FrameGrid α}
    (h : ofRate rate = .ok g) : Scalar.isPositive rate = true ∧ g = ⟨rate⟩ := by
  unfold ofRate ofRate? at h
  by_cases hpos : Scalar.isPositive rate = true
  · rw [if_pos hpos] at h
    exact ⟨hpos, (Except.ok.inj h).symm⟩
  · rw [if_neg hpos] at h
    cases h

open Double

variable {g : FrameGrid Float} {time : Float}

/-- A time whose frames cannot be counted is not brought down to a number. -/
theorem isFinite_of_snapDown (h : (g.snapDown time).isFinite = true) :
    (time * g.rate).isFinite = true :=
  isFinite_of_floor (isFinite_of_div h).1

/-- All other times are, if there is a frame in a second or more. -/
theorem isFinite_snapDown (hrate : g.rate.isFinite = true) (hone : (1.0 : Float) ≤ g.rate)
    (h : (time * g.rate).isFinite = true) : (g.snapDown time).isFinite = true := by
  have hframes := within_floor h
  rw [le_iff_real within_one.isFinite hrate, within_one.real_eq] at hone
  have hpos : 0 < real g.rate := one_pos.trans_le hone
  have hdiv := rounds_div hframes.isFinite hrate hpos.ne'
  rw [hframes.real_eq] at hdiv
  have hfits : Fits (⌊real (time * g.rate)⌋ : ℝ) := hframes.fits
  have hzero : Fits (0 : ℝ) := within_zero.fits
  -- The quotient lies between the number of frames and zero.
  rcases le_total (0 : ℝ) ⌊real (time * g.rate)⌋ with hsign | hsign
  · exact (hdiv.between hzero hfits (div_nonneg hsign hpos.le) (div_le_self hsign hone)).isFinite
  · refine (hdiv.between hfits hzero ?_ (div_nonpos_of_nonpos_of_nonneg hsign hpos.le)).isFinite
    rw [le_div_iff₀ hpos]
    exact mul_le_of_one_le_right hsign hone

end FrameGrid

/-- Along a run of events on a new store, all pending starts are finite if and
    only if every first marker is brought down to a number. With at least one
    frame in a second that is so if and only if the frames up to the marker can be
    counted. A pending start is completed by the markers behind it that are
    brought down to a number, while the speed of new pairs is one, if it is finite
    itself. If it is not, every marker is refused, and it stays whatever happens
    until it is cancelled or undone. -/
theorem pending_starts_finite_iff (pairs : List (Pair Float)) (rate : Float) (s : Store Float)
    (settings : Settings Float) (hnew : Store.ofPairs pairs rate = .ok s)
    (es : List (Event Float)) :
    ((∀ pre, pre <+: es →
        ∀ start ∈ (Project.run ⟨s, settings⟩ pre).store.pending, start.isFinite = true) ↔
      ∀ pre time, pre ++ [.edit (.place time)] <+: es →
        (Project.run ⟨s, settings⟩ pre).store.pending = none →
        ((Project.run ⟨s, settings⟩ pre).store.grid.snapDown time).isFinite = true) ∧
    (∀ r g time, FrameGrid.ofRate r = .ok g →
      ((g.snapDown time).isFinite = true → (time * r).isFinite = true) ∧
      (1.0 ≤ r → (time * r).isFinite = true → (g.snapDown time).isFinite = true)) ∧
    ∀ start, (Project.run ⟨s, settings⟩ es).store.pending = some start →
      (∀ time, (∃ i q, Project.edit (.place time) (Project.run ⟨s, settings⟩ es) =
            .ok (.placed (.pair i)) q ∧ q.store.pending = none) ↔
          (Project.run ⟨s, settings⟩ es).store.Completes
            (Project.run ⟨s, settings⟩ es).settings start time) ∧
      (start.isFinite = false → ∀ more : List (Event Float), (∀ e ∈ more, ¬ e.GivesUp) →
        let p := Project.run ⟨s, settings⟩ (es ++ more)
        p.store.pending = some start ∧ ∀ time, ∃ cause,
          Project.edit (.place time) p = .error cause p) := by
  have hnone : s.pending = none := Store.ofPairs_pending hnew
  refine ⟨Project.run_pending_finite_iff hnone es, fun r g time hg => ?_, fun start hstart => ?_⟩
  · rcases FrameGrid.ofRate_eq_ok_positive hg with ⟨hpos, rfl⟩
    have hrate : r.isFinite = true := (Bool.and_eq_true_iff.mp hpos).1
    exact ⟨FrameGrid.isFinite_of_snapDown, FrameGrid.isFinite_snapDown hrate⟩
  · refine ⟨Project.edit_place_completes_iff hstart, fun hlost more hmore => ?_⟩
    -- A run of all events is the run of the later ones from where the first have led.
    have hrun : Project.run ⟨s, settings⟩ (es ++ more) =
        (Project.run ⟨s, settings⟩ es).run more := List.foldl_append ..
    have hpending := Project.run_pending_lost hstart hlost hmore
    rw [← hrun] at hpending
    exact ⟨hpending, fun time => ⟨_, Project.edit_place_refused hpending hlost time⟩⟩

/-- A start that is brought down to a number stays one, and one that is too large
    is there for good. -/
theorem pending_starts_finite_iff_lost :
    ∃ s : Store Float, Store.ofPairs [] 30.0 = .ok s ∧
      (∀ pre, pre <+: [.edit (.place 1.0)] →
        ∀ start ∈ (Project.run ⟨s, .initial⟩ pre).store.pending, start.isFinite = true) ∧
      ∃ start : Float, start.isFinite = false ∧
        (Project.run ⟨s, .initial⟩
          [.edit (.place 1e308), .edit (.place 5.0), .edit (.setRate 25.0)]).store.pending =
            some start := by
  refine ⟨_, rfl, ?_, ?_⟩
  · refine (pending_starts_finite_iff [] 30.0 _ .initial rfl _).1.mpr fun pre time hpre _ => ?_
    -- The only marker of the run is its first event.
    rcases List.prefix_cons_iff.mp hpre with hnil | ⟨rest, hone, hrest⟩
    · exact absurd hnil (List.append_ne_nil_of_right_ne_nil pre (List.cons_ne_nil _ _))
    · rw [List.prefix_nil.mp hrest] at hone
      rcases List.append_eq_singleton_iff.mp hone with ⟨rfl, htime⟩ | ⟨-, hnil⟩
      · cases htime
        decide +kernel
      · cases hnil
  · have hlost :=
      (pending_starts_finite_iff [] 30.0 _ .initial rfl [.edit (.place 1e308)]).2.2 _ rfl
    refine ⟨_, ?_, (hlost.2 ?_ [.edit (.place 5.0), .edit (.setRate 25.0)] ?_).1⟩
    · decide +kernel
    · decide +kernel
    · simp [Event.GivesUp]

/-- A marker may be so late that its frames cannot be counted. Then the start that
    is pending is no finite time, and a marker behind it is refused. -/
theorem pending_start_overflows :
    ¬ ∀ (rate : Float) (s : Store Float) (settings : Settings Float) (es : List (Event Float)),
      Store.empty rate = .ok s →
        ∀ start ∈ (Project.run ⟨s, settings⟩ es).store.pending, start.isFinite = true := by
  intro h
  have hfinite := h 30.0 _ .initial [.edit (.place 1e308)] rfl _ rfl
  revert hfinite
  decide +kernel

end Retime
