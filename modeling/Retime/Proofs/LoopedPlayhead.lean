import Retime.Proofs.PlayerRate
import Retime.Proofs.SoundEdits

/-!
# The Playhead Comes Home

A preview that stays in the selected pair moves the playhead once and then rests.

The part of the source that it stays in is that of the loop range of the pair, if
there is one that is enabled and lies strictly inside, and else the whole pair.
Its two ends are compared in two ways: strictly, to find out whether the loop
range counts, and not strictly, to find out whether the playhead is inside. If
the start of the range were not itself inside, the player would be sent there on
every frame. It is, because either range is in order: the one by the strict
comparisons, the other because the pair is sound.

So a tick leaves the playhead at home (`Host.atHome_after_loop`), and a tick of
either preview keeps it there and does not seek (`Host.AtHome.tick`), however many
there are.

## Main definitions

* `Pair.Loops`: The two ends of a loop range that counts.
* `Host.loopCalls`: What the player is told by a tick that stays in a pair.
* `Host.AtHome`: The playhead is inside the part that the preview stays in.

## Theorems

* `Pair.loopBounds_cases`: The range is that of the loop, or the whole pair.
* `Pair.loopBounds_inside`: The range is in order and inside the pair.
* `Host.atHome_after_loop`: A tick brings the playhead home.
* `Host.AtHome.run`: Ticks of both previews leave it there.
* `looping_brings_playhead_home`: What ticks do, in all states of a session.
-/

namespace Retime

namespace Pair

variable {α : Type} [Scalar α]

/-- The two ends of a loop range that counts: it is enabled, has both ends, and
    lies strictly inside the pair. -/
def Loops (p : Pair α) (start stop : α) : Prop :=
  p.loop.enabled = true ∧ p.loop.start = some start ∧ p.loop.stop = some stop ∧
    p.start < start ∧ start < stop ∧ stop < p.stop

theorem active?_eq_some_iff {p : Pair α} {start stop : α} :
    p.loop.active? p.start p.stop = some (start, stop) ↔ p.Loops start stop := by
  unfold LoopRange.active? Loops
  split
  · next a b henabled hstart hstop =>
      rw [hstart, hstop, Option.some.injEq, Option.some.injEq]
      -- Enabled and with both ends, the range counts just if it lies strictly inside.
      by_cases hinside : p.start < a ∧ a < b ∧ b < p.stop
      · rw [if_pos hinside, Option.some.injEq, Prod.mk.injEq]
        refine ⟨?_, fun h => ⟨h.2.1, h.2.2.1⟩⟩
        rintro ⟨rfl, rfl⟩
        exact ⟨henabled, rfl, rfl, hinside⟩
      · rw [if_neg hinside]
        refine ⟨(fun h => nomatch h), ?_⟩
        rintro ⟨-, rfl, rfl, h⟩
        exact absurd h hinside
  · next hlacks =>
      exact ⟨(fun h => nomatch h), fun h => (hlacks start stop h.1 h.2.1 h.2.2.1).elim⟩

/-- The range is that of the loop if there is one that counts, and else the whole
    pair. -/
theorem loopBounds_cases (p : Pair α) :
    (∃ start stop, p.Loops start stop ∧ loopBounds p = (start, stop)) ∨
      (∀ start stop, ¬ p.Loops start stop) ∧ loopBounds p = (p.start, p.stop) := by
  unfold loopBounds
  cases hactive : p.loop.active? p.start p.stop with
  | some range => exact Or.inl ⟨range.1, range.2, active?_eq_some_iff.mp hactive, rfl⟩
  | none =>
      refine Or.inr ⟨fun start stop h => ?_, rfl⟩
      rw [active?_eq_some_iff.mpr h] at hactive
      cases hactive

theorem loopBounds_of_loops {p : Pair α} {start stop : α} (h : p.Loops start stop) :
    loopBounds p = (start, stop) := by
  unfold loopBounds
  rw [active?_eq_some_iff.mpr h]
  rfl

/-- The range is in order and inside the pair. -/
theorem loopBounds_inside {p : Pair Float} (hp : p.map.Sound) :
    p.start ≤ (loopBounds p).1 ∧ (loopBounds p).1 < (loopBounds p).2 ∧
      (loopBounds p).2 ≤ p.stop := by
  rcases p.loopBounds_cases with ⟨start, stop, ⟨-, -, -, hstart, hlt, hstop⟩, hbounds⟩ |
    ⟨-, hbounds⟩
  · rw [hbounds]
    exact ⟨OrderedScalar.le_of_lt hstart, hlt, OrderedScalar.le_of_lt hstop⟩
  · have hlt : p.start < p.stop := hp.start_lt_stop
    rcases Double.le_self_of_le (OrderedScalar.le_of_lt hlt) with ⟨hstart, hstop⟩
    rw [hbounds]
    exact ⟨hstart, hlt, hstop⟩

/-- The range is another than the whole pair exactly if a loop range counts. -/
theorem loopBounds_ne_iff (p : Pair Float) :
    loopBounds p ≠ (p.start, p.stop) ↔ ∃ start stop, p.Loops start stop := by
  rcases p.loopBounds_cases with ⟨start, stop, hloops, hbounds⟩ | ⟨hnone, hbounds⟩
  · refine ⟨fun _ => ⟨start, stop, hloops⟩, fun _ heq => ?_⟩
    rw [hbounds, Prod.mk.injEq] at heq
    have hlt : p.start < start := hloops.2.2.2.1
    rw [heq.1] at hlt
    exact Double.lt_irrefl p.start hlt
  · rw [hbounds]
    exact ⟨fun hne => absurd rfl hne, fun ⟨start, stop, h⟩ => absurd h (hnone start stop)⟩

end Pair

namespace Host

variable {α : Type} [Scalar α]

/-- The pair that is selected, if there is one at that place. -/
def selectedPair (h : Host α) : Option (Pair α) :=
  h.session.selected.bind fun i => h.project.store.pairs[i]?

/-- What the player is told by a tick that stays in the selected pair. -/
def loopCalls (h : Host α) : List (PlayerCall α) :=
  (loopingTick h.session h.project.store h.player.playhead).calls

/-- The playhead is inside the part of the selected pair that the preview stays
    in. -/
def AtHome (h : Host α) (p : Pair α) : Prop :=
  h.selectedPair = some p ∧
    (loopBounds p).1 ≤ h.player.playhead ∧ h.player.playhead ≤ (loopBounds p).2

variable {h : Host α} {p : Pair α}

/-- The player is sent to the start of the range if the playhead is outside, and
    told nothing if it is inside. -/
theorem loopCalls_eq (hselected : h.selectedPair = some p) :
    h.loopCalls =
      if (loopBounds p).1 ≤ h.player.playhead ∧ h.player.playhead ≤ (loopBounds p).2 then []
      else [.seek (loopBounds p).1] := by
  have hplace : (h.session.selected.bind fun i => h.project.store.pairs[i]?) = some p := hselected
  unfold loopCalls loopingTick
  rw [hplace]

theorem AtHome.loopCalls_eq_nil (hhome : h.AtHome p) : h.loopCalls = [] := by
  rw [loopCalls_eq hhome.1, if_pos hhome.2]

/-- A player that is told nothing leaves everything as it was. -/
theorem after_loop_of_nil (hcalls : h.loopCalls = []) : h.after .loop = h := by
  change h.ticked ⟨h.session, h.loopCalls, h.session.looping⟩ = h
  rw [hcalls]
  rfl

/-- A tick that follows the speed leaves the playhead where it is. -/
theorem playhead_after_duck (h : Host α) :
    (h.after .duck).player.playhead = h.player.playhead := by
  change (h.frame.calls.foldl Player.told h.player).playhead = h.player.playhead
  -- Whether it is on or off, the tick only ever tells the player rates.
  cases hducking : h.session.ducking with
  | true =>
      rw [frame_on hducking]
      by_cases hdue : (h.due != h.session.rate) = true
      · simp only [if_pos hdue, List.foldl_cons, List.foldl_nil, Player.told]
      · simp only [if_neg hdue, List.foldl_nil]
  | false =>
      rw [frame_off hducking]
      by_cases hdue : (h.due != h.session.rate) = true
      · simp only [if_pos hdue, List.foldl_append, List.foldl_cons, List.foldl_nil, Player.told]
      · simp only [if_neg hdue, List.foldl_append, List.foldl_cons, List.foldl_nil, Player.told]

/-- The selection is not touched by a tick that follows the speed. -/
theorem selectedPair_after_duck (h : Host α) : (h.after .duck).selectedPair = h.selectedPair := by
  have hselected : h.frame.session.selected = h.session.selected := by
    cases hducking : h.session.ducking with
    | true => rw [frame_on hducking]
    | false => rw [frame_off hducking]
  unfold selectedPair
  change (h.frame.session.selected.bind fun i => h.project.store.pairs[i]?) = _
  rw [hselected]

/-- A tick of either preview leaves a playhead at home that was there. -/
theorem AtHome.tick (hhome : h.AtHome p) {e : Happening α} (he : e = .loop ∨ e = .duck) :
    (h.after e).AtHome p := by
  rcases he with rfl | rfl
  · rw [after_loop_of_nil hhome.loopCalls_eq_nil]
    exact hhome
  · refine ⟨(selectedPair_after_duck h).trans hhome.1, ?_⟩
    rw [playhead_after_duck h]
    exact hhome.2

/-- Ticks of both previews leave the playhead at home. -/
theorem AtHome.run {es : List (Happening α)} (hes : ∀ e ∈ es, e = .loop ∨ e = .duck)
    (hhome : h.AtHome p) : (h.run es).AtHome p := by
  induction es generalizing h with
  | nil => exact hhome
  | cons e es ih =>
      rcases List.forall_mem_cons.mp hes with ⟨he, hes⟩
      exact ih hes (hhome.tick he)

/-- A tick brings the playhead home, from wherever it was. -/
theorem atHome_after_loop {h : Host Float} {p : Pair Float} (hp : p.map.Sound)
    (hselected : h.selectedPair = some p) : (h.after .loop).AtHome p := by
  by_cases hin : (loopBounds p).1 ≤ h.player.playhead ∧ h.player.playhead ≤ (loopBounds p).2
  · rw [after_loop_of_nil (by rw [loopCalls_eq hselected, if_pos hin])]
    exact ⟨hselected, hin⟩
  · have hcalls : h.loopCalls = [.seek (loopBounds p).1] := by
      rw [loopCalls_eq hselected, if_neg hin]
    have hplayhead : (h.after .loop).player.playhead = (loopBounds p).1 := by
      change (h.loopCalls.foldl Player.told h.player).playhead = _
      rw [hcalls]
      rfl
    -- The start of the range is itself inside, as the range is in order.
    have hle : (loopBounds p).1 ≤ (loopBounds p).2 :=
      OrderedScalar.le_of_lt (Pair.loopBounds_inside hp).2.1
    refine ⟨hselected, ?_⟩
    rw [hplayhead]
    exact ⟨(Double.le_self_of_le hle).1, hle⟩

end Host

/-- In a session whose selection names a sound pair, wherever the playhead is and
    whatever the loop range of the pair:

    The range that the preview stays in is in order and within the pair. It is the
    loop range if that is enabled, has both ends and lies strictly inside, and it
    is another than the whole pair only then. A tick seeks if and only if the
    playhead is outside the range, and then to its start. After it the playhead is
    within the range, and further ticks of this preview, with ticks of the other
    between them or not, leave it there and do not seek. -/
theorem looping_brings_playhead_home (h : Host Float) (i : Nat) (p : Pair Float)
    (hselected : h.session.selected = some i) (hplace : h.project.store.pairs[i]? = some p)
    (hsound : ∀ q ∈ h.project.store.pairs, q.map.flaw? = none) :
    let range := loopBounds p
    let now := h.player.playhead
    let home := h.after .loop
    (p.start ≤ range.1 ∧ range.1 < range.2 ∧ range.2 ≤ p.stop) ∧
    (∀ start stop, p.Loops start stop → range = (start, stop)) ∧
    (range ≠ (p.start, p.stop) ↔ ∃ start stop, p.Loops start stop) ∧
    (range.1 ≤ now ∧ now ≤ range.2 → h.loopCalls = [] ∧ home = h) ∧
    (¬ (range.1 ≤ now ∧ now ≤ range.2) →
      h.loopCalls = [.seek range.1] ∧ home.player.playhead = range.1) ∧
    (range.1 ≤ home.player.playhead ∧ home.player.playhead ≤ range.2) ∧
    (home.loopCalls = [] ∧ home.after .loop = home) ∧
    ∀ es : List (Happening Float), (∀ e ∈ es, e = .loop ∨ e = .duck) →
      (range.1 ≤ (home.run es).player.playhead ∧ (home.run es).player.playhead ≤ range.2) ∧
        (home.run es).loopCalls = [] := by
  intro range now home
  have hp : p.map.Sound :=
    (SpeedMap.flaw?_eq_none_iff _).mp (hsound p (List.mem_of_getElem? hplace))
  have hpair : h.selectedPair = some p := by
    unfold Host.selectedPair
    rw [hselected, Option.bind_some, hplace]
  -- One tick brings the playhead home, where the further ones find it.
  have hhome : home.AtHome p := Host.atHome_after_loop hp hpair
  refine ⟨Pair.loopBounds_inside hp, fun start stop => Pair.loopBounds_of_loops,
    Pair.loopBounds_ne_iff p, fun hin => ?_, fun hout => ?_, hhome.2,
    ⟨hhome.loopCalls_eq_nil, Host.after_loop_of_nil hhome.loopCalls_eq_nil⟩, fun es hes => ?_⟩
  · have hcalls : h.loopCalls = [] := by rw [Host.loopCalls_eq hpair, if_pos hin]
    exact ⟨hcalls, Host.after_loop_of_nil hcalls⟩
  · have hcalls : h.loopCalls = [.seek range.1] := by
      rw [Host.loopCalls_eq hpair, if_neg hout]
    refine ⟨hcalls, ?_⟩
    change (h.loopCalls.foldl Player.told h.player).playhead = range.1
    rw [hcalls]
    rfl
  · have hrun := hhome.run hes
    exact ⟨hrun.2, hrun.loopCalls_eq_nil⟩

/-- A session on one pair from zero to ten, which is selected and has the given
    loop range, with the playhead at a place that is no number. -/
def loopingHost (loop : LoopRange Float) : Host Float where
  project :=
    { store :=
        { pairs := [{ Pair.ofMap (.plain 0.0 10.0 1.0) .full with loop }]
          parked := .empty Parked.storeLimit
          pending := none
          grid := ⟨30.0⟩
          engine := ⟨30.0⟩ }
      settings := .initial }
  session := { Session.initial with selected := some 0, looping := true }
  player := ⟨0.0 / 0.0, 1.0⟩

/-- The playhead comes to the start of a loop range that lies inside, and to that of
    the pair where the loop range touches its start. -/
theorem looping_brings_playhead_home_nowhere :
    ((loopingHost { start := some 2.0, stop := some 4.0 }).after .loop).player.playhead = 2.0 ∧
      ((loopingHost { start := some 0.0, stop := some 4.0 }).after .loop).player.playhead = 0.0 ∧
      (((loopingHost { start := some 0.0, stop := some 4.0 }).after .loop).run
        [.duck, .loop]).loopCalls = [] := by
  have hinside := looping_brings_playhead_home
    (loopingHost { start := some 2.0, stop := some 4.0 }) 0 _ rfl rfl (by decide)
  have htouching := looping_brings_playhead_home
    (loopingHost { start := some 0.0, stop := some 4.0 }) 0 _ rfl rfl (by decide)
  rcases hinside with ⟨-, -, -, -, hseek, -⟩
  rcases htouching with ⟨-, -, -, -, hseek', -, -, hrun⟩
  exact ⟨(hseek (by decide)).2, (hseek' (by decide)).2,
    (hrun [.duck, .loop] (by simp)).2⟩

end Retime
