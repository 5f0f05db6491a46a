import Retime.Proofs.PreviewRate
import Retime.Proofs.StoreEdits

/-!
# The Player and the Session in Step

A session knows the rate of its player without ever asking it.

The rate is kept twice. The player has it, and the session remembers what it
has told the player last, so that it can keep silent while nothing changes. A
tick has two places that change the one and two that change the other, and
between ticks the pairs, the settings, the playhead and all else in the session
may change in any way. None of this takes the two apart: what a tick tells the
player and what it remembers are the same at each of the places
(`Host.after_inStep`), and nothing but ticks touches either.

The silence has one limit. Rates are compared as numbers, so a zero is not told
where the player has a zero of the other sign.

## Main definitions

* `Player`, `Host`: A player, and a session that works on a project with it.
* `Happening`, `Host.run`: What happens while a preview runs.
* `Host.InStep`: The session remembers the rate that the player has.

## Theorems

* `Double.eq_or_zeros_of_beq`: Doubles that compare as equal are the same, or
  are zeros.
* `Host.after_inStep`, `Host.run_inStep`: The two stay in step.
* `Host.frame_following`: What a tick does while the player follows the speed.
* `player_kept_in_step`: What each tick of a run does.
-/

namespace Retime

/-- Doubles that compare as equal are the same, or are zeros of any sign. -/
theorem Double.eq_or_zeros_of_beq {x y : Float} (h : (x == y) = true) :
    x = y ∨ (x == 0.0) = true ∧ (y == 0.0) = true := by
  have hzero : ∀ {z : Float} {sign}, z.toModel.unpack = .zero sign → (z == 0.0) = true := by
    intro z sign hz
    rw [beq_iff, hz]
    cases sign <;> rfl
  rw [beq_iff, Float.Model.UnpackedFloat.beq_iff_ne_notANumber_and_eq] at h
  -- One double each, or zeros of two signs either way round.
  rcases h.2.2 with heq | ⟨hx, hy⟩ | ⟨hx, hy⟩
  · exact Or.inl (eq_of_unpack_eq heq)
  · exact Or.inr ⟨hzero hx, hzero hy⟩
  · exact Or.inr ⟨hzero hx, hzero hy⟩

/-- A player, as far as a preview can see and change it. -/
structure Player (α : Type) where
  playhead : α
  rate : α

/-- The player after it was told something. -/
def Player.told {α : Type} (p : Player α) : PlayerCall α → Player α
  | .rate r => { p with rate := r }
  | .seek time => { p with playhead := time }

/-- A player that was told a rate last has that rate. -/
theorem Player.rate_told_last {α : Type} (p : Player α) (calls : List (PlayerCall α)) (r : α) :
    ((calls ++ [PlayerCall.rate r]).foldl told p).rate = r := by
  rw [List.foldl_concat]
  rfl

/-- A session that works on a project, with the player that shows its source. -/
structure Host (α : Type) where
  project : Project α
  session : Session α
  player : Player α

/-- What happens while a preview runs. -/
inductive Happening (α : Type) where
  /-- An edit is done or refused, or other settings are chosen. -/
  | event (e : Event α)
  /-- Other pairs and settings are loaded. -/
  | load (p : Project α)
  /-- Anything in the session but the rate is changed: the easing, the previews
      that are on, the selection. -/
  | adjust (s : Session α)
  /-- The playhead goes on or jumps. -/
  | jump (time : α)
  /-- A tick of the preview that follows the speed. -/
  | duck
  /-- A tick of the preview that stays in the selected pair. -/
  | loop

namespace Host

variable {α : Type} [Scalar α]

/-- The rate of the pair at the playhead. -/
def due (h : Host α) : α :=
  rateAt h.session h.project.store h.project.settings h.player.playhead

/-- The tick that follows the speed, at the playhead. -/
def frame (h : Host α) : Tick α :=
  duckingTick h.session h.project.store h.project.settings h.player.playhead

/-- The host after a tick. The player has been told all that it is to be told. -/
def ticked (h : Host α) (t : Tick α) : Host α :=
  { h with session := t.session, player := t.calls.foldl Player.told h.player }

/-- The host after something has happened. -/
def after (h : Host α) : Happening α → Host α
  | .event e => { h with project := h.project.after e }
  | .load p => { h with project := p }
  | .adjust s => { h with session := { s with rate := h.session.rate } }
  | .jump time => { h with player := { h.player with playhead := time } }
  | .duck => h.ticked h.frame
  | .loop => h.ticked (loopingTick h.session h.project.store h.player.playhead)

/-- The host after all of several things have happened. -/
def run (h : Host α) (es : List (Happening α)) : Host α :=
  es.foldl after h

/-- The session remembers the rate that the player has. -/
def InStep (h : Host α) : Prop :=
  h.session.rate = h.player.rate

theorem frame_on {h : Host α} (hon : h.session.ducking = true) :
    h.frame = ⟨{ h.session with rate := if h.due != h.session.rate then h.due else h.session.rate },
      if h.due != h.session.rate then [.rate h.due] else [], true⟩ := by
  unfold frame duckingTick
  exact if_pos hon

theorem frame_off {h : Host α} (hoff : h.session.ducking = false) :
    h.frame = ⟨{ h.session with rate := 1.0 },
      (if h.due != h.session.rate then [.rate h.due] else []) ++ [.rate 1.0], false⟩ := by
  unfold frame duckingTick
  exact if_neg (Bool.eq_false_iff.mp hoff)

/-- A preview that keeps the playhead in a pair leaves the rate alone. -/
theorem looped_rate (h : Host α) : (h.after .loop).player.rate = h.player.rate := by
  change ((loopingTick h.session h.project.store h.player.playhead).calls.foldl
    Player.told h.player).rate = h.player.rate
  unfold loopingTick
  cases h.session.selected.bind fun i => h.project.store.pairs[i]? with
  | none => rfl
  | some p =>
      -- Such a tick seeks or does nothing, and seeking is no matter of the rate.
      by_cases hin : (loopBounds p).1 ≤ h.player.playhead ∧ h.player.playhead ≤ (loopBounds p).2
      · simp only [if_pos hin, List.foldl_nil]
      · simp only [if_neg hin, List.foldl_cons, List.foldl_nil, Player.told]

/-- While the player follows the speed, it has the rate that is due after a
    tick if it was told, and its former rate if it was not. -/
theorem ducked_rate_on {h : Host α} (hon : h.session.ducking = true) :
    (h.after .duck).player.rate =
      if h.due != h.session.rate then h.due else h.player.rate := by
  change (h.frame.calls.foldl Player.told h.player).rate = _
  rw [frame_on hon]
  by_cases hdue : (h.due != h.session.rate) = true
  · simp only [if_pos hdue, List.foldl_cons, List.foldl_nil, Player.told]
  · simp only [if_neg hdue, List.foldl_nil]

theorem ducked_rate_off {h : Host α} (hoff : h.session.ducking = false) :
    (h.after .duck).player.rate = 1.0 := by
  change (h.frame.calls.foldl Player.told h.player).rate = _
  rw [frame_off hoff]
  exact Player.rate_told_last ..

/-- A tick remembers what it tells the player. -/
theorem ducked_inStep {h : Host α} (hstep : h.InStep) : (h.after .duck).InStep := by
  change h.frame.session.rate = (h.after .duck).player.rate
  cases hducking : h.session.ducking with
  | true =>
      rw [ducked_rate_on hducking, frame_on hducking]
      -- Both go by the same test, and where nothing is told they were in step before.
      exact if_congr Iff.rfl rfl hstep
  | false =>
      rw [ducked_rate_off hducking, frame_off hducking]

/-- Whatever happens, the session remembers the rate that the player has. -/
theorem after_inStep {h : Host α} (hstep : h.InStep) (e : Happening α) : (h.after e).InStep := by
  cases e with
  | event e => exact hstep
  | load p => exact hstep
  | adjust s => exact hstep
  | jump time => exact hstep
  | duck => exact ducked_inStep hstep
  | loop => exact hstep.trans (looped_rate h).symm

theorem run_inStep {h : Host α} (hstep : h.InStep) (es : List (Happening α)) :
    (h.run es).InStep := by
  induction es generalizing h with
  | nil => exact hstep
  | cons e es ih => exact ih (after_inStep hstep e)

/-- While the player follows the speed, it has the rate that is due after each
    tick, or a zero where a zero is due. -/
theorem frame_following {h : Host Float} (hstep : h.InStep) (hon : h.session.ducking = true) :
    (h.after .duck).player.rate = h.due ∨
      ((h.after .duck).player.rate == 0.0) = true ∧ (h.due == 0.0) = true := by
  rw [ducked_rate_on hon]
  by_cases hdue : (h.due != h.session.rate) = true
  · rw [if_pos hdue]
    exact Or.inl rfl
  · rw [if_neg hdue, ← hstep]
    -- The player was not told, so its rate compares as equal to the one due.
    have hequal : (h.due == h.session.rate) = true :=
      Bool.not_eq_false _ ▸ fun hc => hdue (congrArg Bool.not hc)
    rcases Double.eq_or_zeros_of_beq hequal with heq | ⟨hdue, hrate⟩
    · exact Or.inl heq.symm
    · exact Or.inr ⟨hrate, hdue⟩

/-- Outside all pairs a player that follows the speed has the normal rate. -/
theorem frame_idle {h : Host Float} (hstep : h.InStep) (hon : h.session.ducking = true)
    (hidle : ∀ p ∈ h.project.store.pairs, p.contains h.player.playhead = false) :
    (h.after .duck).player.rate = 1.0 := by
  have hdue : h.due = 1.0 :=
    rateAt_idle h.session h.project.settings (Store.shortestAt_eq_none_iff.mpr hidle)
  rcases frame_following hstep hon with heq | ⟨-, hzero⟩
  · rw [heq, hdue]
  · -- The rate that is due is one, so it is not a zero.
    rw [hdue] at hzero
    exact absurd hzero (by decide)

end Host

/-- In a session that remembers the rate of the player at first, it does so
    throughout, whatever is edited, chosen, loaded, jumped to or turned on and
    off. A tick that follows the speed tells the player a rate once if the one
    that is due is not the one remembered, and nothing otherwise, and asks for
    another tick. It leaves the player at the rate that is due, which is one
    outside all pairs. A tick after the preview was turned off leaves the player
    at one and asks for no other. -/
theorem player_kept_in_step (start : Host Float) (hstart : start.InStep)
    (es : List (Happening Float)) :
    let h := start.run es
    let next := h.after .duck
    h.session.rate = h.player.rate ∧ next.session.rate = next.player.rate ∧
    (h.session.ducking = true →
      h.frame.calls = (if h.due != h.session.rate then [.rate h.due] else []) ∧
      h.frame.again = true ∧
      (next.player.rate = h.due ∨
        (next.player.rate == 0.0) = true ∧ (h.due == 0.0) = true) ∧
      ((∀ p ∈ h.project.store.pairs, p.contains h.player.playhead = false) →
        next.player.rate = 1.0)) ∧
    (h.session.ducking = false →
      h.frame.again = false ∧ next.player.rate = 1.0 ∧ next.session.rate = 1.0) := by
  intro h next
  have hstep : h.InStep := Host.run_inStep hstart es
  -- A tick is an event like the others, so the player is in step after it too.
  have hnext : next.InStep := Host.ducked_inStep hstep
  refine ⟨hstep, hnext, fun hon => ?_, fun hoff => ?_⟩
  · have hframe := Host.frame_on hon
    exact ⟨congrArg Tick.calls hframe, congrArg Tick.again hframe,
      Host.frame_following hstep hon, Host.frame_idle hstep hon⟩
  · have hrate := Host.ducked_rate_off hoff
    exact ⟨congrArg Tick.again (Host.frame_off hoff), hrate, hnext.trans hrate⟩

/-- A session on two pairs, one within the other, with the player in the inner
    one. -/
def nestedHost : Host Float where
  project := ⟨nestedStore, .initial⟩
  session := { Session.initial with ducking := true }
  player := ⟨5.0, 1.0⟩

/-- The inner pair is deleted under the playhead after a tick, then the preview
    is turned off. -/
theorem player_kept_in_step_deleted :
    nestedHost.InStep ∧
      (let h := nestedHost.run [.duck, .event (.edit (.delete 1)), .jump 20.0]
       h.session.rate = h.player.rate ∧ (h.after .duck).player.rate = 1.0) ∧
      (let h := nestedHost.run [.duck, .adjust Session.initial]
       h.frame.again = false ∧ (h.after .duck).player.rate = 1.0) := by
  have hstart : nestedHost.InStep := rfl
  have hdeleted := player_kept_in_step nestedHost hstart
    [.duck, .event (.edit (.delete 1)), .jump 20.0]
  have hoff := player_kept_in_step nestedHost hstart [.duck, .adjust Session.initial]
  -- Once the inner pair is gone, the playhead is in none.
  have hidle : ∀ p ∈ (nestedHost.run [.duck, .event (.edit (.delete 1)),
      .jump 20.0]).project.store.pairs, p.contains 20.0 = false := by decide
  exact ⟨hstart, ⟨hdeleted.1, (hdeleted.2.2.1 rfl).2.2.2 hidle⟩,
    ⟨(hoff.2.2.2 rfl).1, (hoff.2.2.2 rfl).2.1⟩⟩

end Retime
