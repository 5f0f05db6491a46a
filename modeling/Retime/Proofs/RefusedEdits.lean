import Retime.Proofs.StoreEdits
import Retime.Scalar.Double

/-!
# Refused Edits

An edit that is refused leaves the session as it was: all pairs with their
moves, the parked pairs, the pending start and both frame rates.

Most edits ask before they touch anything. Three kinds do not, and each has a
reason of its own. Going one move back or forth takes a record off its stack
first, and puts it back if the map refuses. The second marker of a pair gives
the pending start up only behind the creation of the pair. And the speed of
all pairs goes from pair to pair, but has been refused by then if any pair
would refuse it; so it comes out in one of two ways, at every pair or at none,
which `setAllSpeeds_all_or_none` says.

## Theorems

* `Store.setAllSpeeds_all_or_none`: The speed of all pairs is set at each pair,
  or the store is as it was.
* `refused_edits_leave_no_trace`: A refused edit leaves the session as it was.
-/

namespace Retime

namespace Store

variable {α : Type} [Scalar α]

/-- The speed of all pairs is set at each pair, with the play time computed, or
    it is refused and the store is as it was. -/
theorem setAllSpeeds_all_or_none (speed : α) (s : Store α) :
    (∃ cause, setAllSpeeds speed s = .error cause s) ∨
      ∃ pairs, setAllSpeeds speed s = .ok () { s with pairs } ∧
        List.Forall₂ (fun p q => ∃ u, p.setSpeed speed = .ok u ∧ q = timed s.engine u)
          s.pairs pairs := by
  cases hr : setAllSpeeds speed s with
  | error cause t =>
      have ht : t = s := (setAllSpeeds_stepping (r := .landscape) speed).atomic hr
      exact Or.inl ⟨cause, by rw [ht]⟩
  | ok b t =>
      rcases InPlace.bind_eq_ok.mp hr with ⟨m, u, hm, hpairs⟩
      -- What is checked in front of the pairs leaves the store alone.
      rcases marking_eq_ok hm with ⟨-, rfl⟩
      change onPairs (remapped u.engine (Pair.setSpeed speed)) u = _ at hpairs
      unfold onPairs at hpairs
      cases heach : InPlace.each (remapped u.engine (Pair.setSpeed speed)) u.pairs with
      | error cause pairs => rw [heach] at hpairs; cases hpairs
      | ok b' pairs =>
          rw [heach] at hpairs
          cases hpairs
          refine Or.inr ⟨pairs, rfl, (InPlace.each_eq_ok heach).imp ?_⟩
          exact fun p q hpq => remapped_eq_ok hpq

end Store

/-- An edit that is refused leaves the session as it was, whatever the session
    and whatever was given. In particular a move that cannot be taken back or
    made again stays on the stack that it was on, and the speed of all pairs is
    set at each of them or at none. -/
theorem refused_edits_leave_no_trace {α : Type} [Scalar α] (p : Project α) :
    (∀ e cause q, Project.edit e p = .error cause q → q = p) ∧
    (∀ (pair : Pair α) cause left,
      pair.takeBack = .error cause left ∨ pair.makeAgain = .error cause left → left = pair) ∧
    ∀ speed,
      (∃ cause, Project.edit (.setAllSpeeds speed) p = .error cause p) ∨
      ∃ pairs,
        Project.edit (.setAllSpeeds speed) p = .ok .done { p with store.pairs := pairs } ∧
          List.Forall₂
            (fun old new => ∃ u, old.setSpeed speed = .ok u ∧
              new = Store.timed p.store.engine u)
            p.store.pairs pairs := by
  refine ⟨fun e cause q h => Project.edit_atomic e h, fun pair cause left h => ?_, fun speed => ?_⟩
  · rcases h with h | h
    · exact Pair.takeBack_atomic h
    · exact Pair.makeAgain_atomic h
  · -- Setting all speeds is done on the store, where it is all or none.
    have hedit : Project.edit (.setAllSpeeds speed) p =
        EStateM.bind (Project.onStore (Store.setAllSpeeds speed)) (fun _ => pure .done) p := rfl
    rw [hedit, EStateM.bind, Project.onStore]
    rcases Store.setAllSpeeds_all_or_none speed p.store with ⟨cause, h⟩ | ⟨pairs, h, hall⟩
    · rw [h]
      exact Or.inl ⟨cause, rfl⟩
    · rw [h]
      exact Or.inr ⟨pairs, rfl, hall⟩

/-- A session whose first pair has a move that no map takes back: the start
    would come to lie behind the end. -/
def stuck : Project Float where
  store :=
    { pairs := [
        { Pair.ofMap ⟨⟨0.0, 1.0⟩, [], ⟨1.0, 1.0⟩⟩ .full with
          moves := ⟨[⟨.start, 2.0, 0.0, []⟩], []⟩ },
        Pair.ofMap ⟨⟨0.0, 1.0⟩, [], ⟨1.0, 2.0⟩⟩ .full]
      parked := .empty Parked.storeLimit
      pending := some 5.0
      grid := ⟨30.0⟩
      engine := ⟨30.0⟩ }
  settings := .initial

/-- The move is refused and is still there to be taken back, and a speed of
    zero is refused by all pairs. -/
theorem refused_edits_leave_no_trace_stuck :
    (∃ cause q, Project.edit (.undoMove 0) stuck = .error cause q ∧ q = stuck) ∧
      ∃ cause q, Project.edit (.setAllSpeeds 0.0) stuck = .error cause q ∧ q = stuck := by
  have hleave := (refused_edits_leave_no_trace stuck).1
  exact ⟨⟨_, _, rfl, hleave (.undoMove 0) _ _ rfl⟩,
    ⟨_, _, rfl, hleave (.setAllSpeeds 0.0) _ _ rfl⟩⟩

end Retime
