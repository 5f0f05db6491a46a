import Retime.Proofs.OneSpeed
import Retime.Proofs.PendingStart
import Retime.Proofs.RefusedEdits

/-!
# Setting the Speed of Clips

What becomes of a clip whose speed is set, and of a clip of one speed above all.

There are two ways to ask whether a clip has one speed. One looks at all
neighbouring points, and a clip of any number of points may pass. The other is
passed by the two points of a plain map only, and it is this one that is asked when
a speed is set. A plain map takes the speed at both ends. Any other keeps its shape
and takes the speed at its first point alone.

So setting the speed of a clip of one speed leaves a clip of one speed if it has two
points. With a point in between it begins to vary, from the new speed at the start to
the old one at the next point, unless the two are the same. The speed of a pair is
the speed that was set in each case, as it is that of the first point.

The speed of all pairs is the same edit at each of them. It is refused for no pair,
since a speed that suits one map suits all.

## Main definitions

* `Pair.SpeedSet`: What a pair is once its speed was set.

## Theorems

* `SpeedMap.isVariable_eq_false_iff`: In a sound map no speed changes if all are
  that of the start.
* `SpeedMap.setSpeed_eq`: What setting the speed makes of a map.
* `Pair.speedSet_of_setSpeed`: What it makes of a pair.
* `two_point_pairs_stay_constant`: What setting one speed or all makes of a store.
* `constant_pair_starts_to_vary`: A clip of one speed that varies afterwards.
-/

namespace Retime

namespace SpeedMap

section Plain

variable {α : Type} [Scalar α] {m : SpeedMap α}

/-- A plain map is one of two points in which no speed changes. -/
theorem isPlain_iff : m.isPlain = true ↔ m.points.length = 2 ∧ m.isVariable = false := by
  obtain ⟨first, inner, last⟩ := m
  rw [length_points]
  -- With no point between the ends, both sides ask whether their speeds are equal.
  cases inner with
  | nil =>
      change (true && (first.speed == last.speed)) = true ↔
        0 + 2 = 2 ∧ (!(first.speed == last.speed) || false) = false
      rw [Bool.true_and, Bool.or_false, Bool.not_eq_false']
      exact ⟨fun h => ⟨rfl, h⟩, fun h => h.2⟩
  | cons p inner =>
      refine iff_of_false ?_ fun h => ?_
      · exact Bool.false_ne_true
      · rw [List.length_cons] at h
        omega

/-- A plain map takes the speed at both ends, any other at its first point alone. -/
theorem setSpeed_eq {speed : α} (hspeed : Scalar.isPositive speed = true) (m : SpeedMap α) :
    m.setSpeed speed =
      .ok (if m.isPlain then plain m.start m.stop speed
        else { m with first := ⟨m.start, speed⟩ }) := by
  unfold setSpeed checkSpeed
  rw [if_pos hspeed]
  cases hplain : m.isPlain with
  | true =>
      obtain ⟨first, inner, last⟩ := m
      -- A plain map has no inner points, so giving both ends the speed makes the map of two.
      have hinner : inner = [] := List.isEmpty_iff.mp (Bool.and_eq_true_iff.mp hplain).1
      subst hinner
      rfl
  | false => rfl

end Plain

/-- In a sound map no speed changes if all are that of the start. -/
theorem isVariable_eq_false_iff {m : SpeedMap Float} (hm : m.Sound) :
    m.isVariable = false ↔ m.Level m.first.speed := by
  have hfirst := hm.speed m.first List.mem_cons_self
  refine ⟨level_of_isVariable_eq_false fun left right hs heq => ?_, fun h =>
    h.isVariable_eq_false (Double.beq_self (Bool.and_eq_true_iff.mp hfirst).1)⟩
  have hleft := hm.speed left (mem_points_of_mem_segments hs).1
  exact Double.eq_of_beq (of_decide_eq_true (Bool.and_eq_true_iff.mp hleft).2) heq

/-- A map of one speed has one still after a speed was set at its first point, if the
    speed is the one it had. -/
theorem isVariable_first_eq_false_iff {m : SpeedMap Float} (hm : m.Sound) {speed : Float}
    (hspeed : Scalar.isPositive speed = true) (hlevel : m.isVariable = false) :
    ({ m with first := ⟨m.start, speed⟩ } : SpeedMap Float).isVariable = false ↔
      speed = m.first.speed := by
  rcases forall_mem_points.mp ((isVariable_eq_false_iff hm).mp hlevel) with ⟨-, hinner, hlast⟩
  have hsound : ({ m with first := ⟨m.start, speed⟩ } : SpeedMap Float).Sound :=
    hm.of_outline rfl hspeed (forall_mem_points.mp hm.speed).2.2
  rw [isVariable_eq_false_iff hsound]
  constructor
  -- The last point has the speed that the map had, and would have the new one.
  · intro h
    exact (forall_mem_points.mp h).2.2.symm.trans hlast
  · intro h
    exact forall_mem_points.mpr ⟨rfl, fun p hp => (hinner p hp).trans h.symm, hlast.trans h.symm⟩

end SpeedMap

namespace Pair

/-- What the pair `p` is once a speed was set. Nothing is changed but the map and the
    play time, and no time in the map. The pair has the speed. A map of two points
    and one speed has it everywhere; any other has it at its first point and is as it
    was behind that, so that one of one speed varies from then on if the speed is
    another. -/
structure SpeedSet (g : FrameGrid Float) (speed : Float) (p q : Pair Float) : Prop where
  kept : q = { p with map := q.map, playTime := g.playTime q.map }
  times : q.map.times = p.map.times
  taken : q.speed = speed
  plain : p.map.isVariable = false → p.map.points.length = 2 →
    q.map.isVariable = false ∧ q.map.Level speed
  others : p.map.isVariable = true ∨ p.map.points.length ≠ 2 →
    q.map = { p.map with first := ⟨p.start, speed⟩ }
  longer : p.map.isVariable = false → p.map.points.length ≠ 2 →
    (q.map.isVariable = false ↔ speed = p.speed)

/-- What setting the speed makes of a sound pair. -/
theorem speedSet_of_setSpeed (g : FrameGrid Float) {p u : Pair Float} {speed : Float}
    (hp : p.map.Sound) (hspeed : Scalar.isPositive speed = true) (h : p.setSpeed speed = .ok u) :
    SpeedSet g speed p (Store.timed g u) := by
  rcases setSpeed_eq_ok h with ⟨m, hm, rfl⟩
  rw [SpeedMap.setSpeed_eq hspeed, Except.ok.injEq] at hm
  subst hm
  have hplain := SpeedMap.isPlain_iff (m := p.map)
  -- A plain pair takes the speed throughout, and of any other only the first point changes.
  by_cases hp2 : p.map.isPlain = true
  · rw [if_pos hp2]
    rcases hplain.mp hp2 with ⟨htwo, hlevel⟩
    have hself := Double.beq_self (Bool.and_eq_true_iff.mp hspeed).1
    have hall := SpeedMap.level_plain p.map.start p.map.stop speed
    refine ⟨rfl, ?_, rfl, fun _ _ => ⟨hall.isVariable_eq_false hself, hall⟩, fun hother => ?_,
      fun _ hne => absurd htwo hne⟩
    · refine SpeedMap.times_eq_of_outline ?_
      have hinner : p.map.inner = [] := List.isEmpty_iff.mp (Bool.and_eq_true_iff.mp hp2).1
      change (p.map.start, [], p.map.stop) = (p.map.start, p.map.inner, p.map.stop)
      rw [hinner]
    · rcases hother with hvariable | hne
      · rw [hlevel] at hvariable
        cases hvariable
      · exact absurd htwo hne
  · rw [if_neg hp2]
    refine ⟨rfl, SpeedMap.times_eq_of_outline rfl, rfl, fun hlevel htwo => ?_, fun _ => rfl,
      fun hlevel _ => SpeedMap.isVariable_first_eq_false_iff hp hspeed hlevel⟩
    exact absurd (hplain.mpr ⟨htwo, hlevel⟩) hp2

end Pair

namespace Store

variable {speed : Float}

/-- A speed that suits a map is set at all pairs. -/
theorem setAllSpeeds_accepted (hspeed : Scalar.isPositive speed = true) (s : Store Float) :
    ∃ pairs, setAllSpeeds speed s = .ok () { s with pairs } ∧
      List.Forall₂ (fun p q => ∃ u, p.setSpeed speed = .ok u ∧ q = timed s.engine u)
        s.pairs pairs := by
  rcases setAllSpeeds_all_or_none speed s with ⟨cause, herror⟩ | hdone
  · exfalso
    rcases InPlace.bind_eq_error.mp herror with hcheck | ⟨m, u, -, hpairs⟩
    · -- The speed is tried on a map of one second, where nothing else could be refused.
      have hconstant : ∃ m, SpeedMap.constant (0.0 : Float) 1.0 speed = .ok m :=
        SpeedMap.constant_accepted_iff.mpr ⟨by decide, by decide, by decide, hspeed⟩
      rcases hconstant with ⟨m, hm⟩
      unfold marking at hcheck
      rw [hm] at hcheck
      cases hcheck
    · exact (onPairs_setSpeed_accepted hspeed u.engine hpairs).elim
  · exact hdone

/-- A speed that suits a map is set at the pair at a place. -/
theorem setSpeed_accepted_at (hspeed : Scalar.isPositive speed = true) {s : Store Float} {i : Nat}
    {p : Pair Float} (hp : s.pairs[i]? = some p) :
    ∃ u, p.setSpeed speed = .ok u ∧
      setSpeed i speed s = .ok () (s.replace i (timed s.engine u)) := by
  rcases setSpeed_accepted hspeed p with ⟨u, hu⟩
  have hpair : s.pair i = .ok p := by
    unfold pair
    rw [hp]
  refine ⟨u, hu, ?_⟩
  change onPair i (remapped s.engine (Pair.setSpeed speed)) s = _
  -- The time is computed once the speed has been accepted.
  have hremapped : remapped s.engine (Pair.setSpeed speed) p = .ok () (timed s.engine u) := by
    change EStateM.bind (InPlace.update (Pair.setSpeed speed)) _ p = _
    unfold EStateM.bind InPlace.update
    rw [hu]
    rfl
  unfold onPair
  rw [hpair]
  dsimp only
  rw [hremapped]

end Store

/-- A speed that is positive and finite is accepted for all pairs of a store of sound
    ones and for each of them. Every pair that it was set for has this speed. A pair
    of two points that did not vary does not vary afterwards and has the speed
    throughout. In every other pair only the first point has another speed, so a pair
    that did not vary and has more points than two varies afterwards unless the speed
    is the one it had. Nothing else is changed, except that the play times are
    computed, and the other pairs are not touched when the speed of one is set. -/
theorem two_point_pairs_stay_constant (store : Store Float)
    (hsound : ∀ p ∈ store.pairs, p.map.flaw? = none) (speed : Float)
    (hspeed : Scalar.isPositive speed = true) :
    (∃ pairs, Store.setAllSpeeds speed store = .ok () { store with pairs } ∧
      List.Forall₂ (Pair.SpeedSet store.engine speed) store.pairs pairs) ∧
    ∀ i p, store.pairs[i]? = some p → ∃ q,
      Store.setSpeed i speed store = .ok () { store with pairs := store.pairs.set i q } ∧
        Pair.SpeedSet store.engine speed p q := by
  have hmaps : ∀ p ∈ store.pairs, p.map.Sound :=
    fun p hp => (SpeedMap.flaw?_eq_none_iff _).mp (hsound p hp)
  constructor
  · rcases Store.setAllSpeeds_accepted hspeed store with ⟨pairs, hdone, hall⟩
    -- The row of accepted pairs is read pair by pair, each with its own map.
    refine ⟨pairs, hdone, ((List.forall₂_and_left _ _).mpr ⟨hmaps, hall⟩).imp ?_⟩
    rintro p q ⟨hp, u, hu, rfl⟩
    exact Pair.speedSet_of_setSpeed store.engine hp hspeed hu
  · intro i p hp
    rcases Store.setSpeed_accepted_at hspeed hp with ⟨u, hu, hdone⟩
    exact ⟨_, hdone, Pair.speedSet_of_setSpeed store.engine
      (hmaps p (List.mem_of_getElem? hp)) hspeed hu⟩

/-- A store with a clip of two points and one with a point in its middle, both of one
    speed throughout. -/
def steadyStore : Store Float where
  pairs := [
    .ofMap (.plain 0.0 2.0 1.0) .full,
    .ofMap ⟨⟨0.0, 1.0⟩, [⟨1.0, 1.0⟩], ⟨2.0, 1.0⟩⟩ .full]
  parked := .empty Parked.storeLimit
  pending := none
  grid := ⟨30.0⟩
  engine := ⟨30.0⟩

/-- The clip of two points goes on at one speed. The other one keeps its last two
    points, and is set back to one speed by the speed that it had. -/
theorem two_point_pairs_stay_constant_steady :
    (∃ q, Store.setSpeed 0 2.0 steadyStore =
        .ok () { steadyStore with pairs := steadyStore.pairs.set 0 q } ∧
      q.map.isVariable = false ∧ q.map.Level 2.0) ∧
    ∃ q, Store.setSpeed 1 1.0 steadyStore =
        .ok () { steadyStore with pairs := steadyStore.pairs.set 1 q } ∧
      q.map.isVariable = false := by
  have hsound : ∀ p ∈ steadyStore.pairs, p.map.flaw? = none := by decide
  rcases (two_point_pairs_stay_constant steadyStore hsound 2.0 (by decide)).2 0 _ rfl with
    ⟨q, hq, hset⟩
  rcases (two_point_pairs_stay_constant steadyStore hsound 1.0 (by decide)).2 1 _ rfl with
    ⟨q', hq', hset'⟩
  exact ⟨⟨q, hq, hset.plain (by decide) rfl⟩,
    ⟨q', hq', (hset'.longer (by decide) (by decide)).mpr rfl⟩⟩

/-- A clip of one speed with a point in its middle varies after a speed was set, for
    all pairs or for it alone, and its last point has the speed that it had. -/
theorem constant_pair_starts_to_vary :
    (∀ p ∈ steadyStore.pairs, p.map.flaw? = none ∧ p.map.isVariable = false) ∧
    Scalar.isPositive (2.0 : Float) = true ∧
    (∃ t q, Store.setAllSpeeds 2.0 steadyStore = .ok () t ∧ t.pairs[1]? = some q ∧
      q.map.isVariable = true ∧ q.map.last.speed = 1.0) ∧
    ∃ t q, Store.setSpeed 1 2.0 steadyStore = .ok () t ∧ t.pairs[1]? = some q ∧
      q.map.isVariable = true ∧ q.map.last.speed = 1.0 := by
  refine ⟨by decide, by decide, ?_, ?_⟩
  · exact ⟨_, _, rfl, rfl, by decide, rfl⟩
  · exact ⟨_, _, rfl, rfl, by decide, rfl⟩

end Retime
