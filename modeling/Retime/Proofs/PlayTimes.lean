import Retime.Proofs.StoreEdits
import Retime.Scalar.Double

/-!
# Play Times Are Current

The play time of every pair of a store is that of its map.

A pair holds the play time that was last computed for it, and nothing in its
type ties that number to the map. It is kept right by the store, at two times:
when the map of a pair changes, and when the frame rate does. Parked pairs are
left alone. Their play times go out of date with every change of the rate, and
are computed when they come back, so nothing has to be known of them.

The two frame rates of a store agree throughout, which is why it does not
matter that play times are computed on one and reported for the other.

## Main definitions

* `Store.Current`: All play times are those of the maps.

## Theorems

* `Store.Step.current`: One edit keeps play times current.
* `Store.ofPairs_current`: They are current to begin with.
* `play_times_current`: They are current after any run of edits.
-/

namespace Retime

namespace Store

variable {α : Type} [Scalar α]

/-- The play time of each pair is that of its map at the rate of the store,
    and there is one rate. -/
structure Current (s : Store α) : Prop where
  playTime : ∀ p ∈ s.pairs, p.playTime = s.engine.playTime p.map
  rates : s.grid = s.engine

theorem Step.current {r : Resolution} {back : Option (Pair α)} {s t : Store α}
    (h : Step r back s t) (hs : s.Current) : t.Current := by
  refine ⟨fun p hp => ?_, h.rates hs.rates⟩
  cases h.pairs p hp with
  | kept hmem hengine => rw [hengine]; exact hs.playTime p hmem
  | @cropped q c hmem hengine => rw [hengine]; exact hs.playTime q hmem
  | @overridden q o hmem hengine => rw [hengine]; exact hs.playTime q hmem
  -- In the other cases the play time was just computed.
  | remapped hmem hq => rfl
  | fresh c hc => rfl
  | returned hback => rfl

theorem empty_current {rate : α} {s : Store α} (h : empty rate = .ok s) : s.Current := by
  rcases empty_eq_ok h with ⟨g, rfl⟩
  exact ⟨(fun p hp => nomatch hp), rfl⟩

theorem ofPairs_current {pairs : List (Pair α)} {rate : α} {s : Store α}
    (h : ofPairs pairs rate = .ok s) : s.Current := by
  unfold ofPairs at h
  cases he : (empty rate : Except (EditError α) (Store α)) with
  | error e => rw [he] at h; cases h
  | ok t =>
      rw [he] at h
      cases h
      refine ⟨fun p hp => ?_, (empty_current he).rates⟩
      -- Every pair has just been given the time of its map.
      rcases List.mem_map.mp hp with ⟨q, -, rfl⟩
      rfl

end Store

namespace Project

variable {α : Type} [Scalar α]

theorem after_current {p : Project α} (h : p.store.Current) (e : Event α) :
    (p.after e).store.Current := by
  cases e with
  | choose settings => exact h
  | edit e =>
      -- An edit was done, as a step of the store, or it was refused.
      rcases after_edit p e with hstep | hstay
      · exact hstep.store.current h
      · rw [hstay]
        exact h

theorem run_current {p : Project α} (h : p.store.Current) (es : List (Event α)) :
    (p.run es).store.Current := by
  induction es generalizing p with
  | nil => exact h
  | cons e es ih => exact ih (after_current h e)

end Project

/-- In every store that a run of edits leads to, done or refused and with any
    settings at each, the play time of each pair is that of its map at the rate
    of the store, and markers are placed on the grid of the same rate. -/
theorem play_times_current {α : Type} [Scalar α] (s : Store α) (settings : Settings α)
    (hnew : (∃ rate, Store.empty rate = .ok s) ∨ ∃ pairs rate, Store.ofPairs pairs rate = .ok s)
    (es : List (Event α)) :
    let t := (Project.run ⟨s, settings⟩ es).store
    (∀ p ∈ t.pairs, p.playTime = t.engine.playTime p.map) ∧ t.grid = t.engine := by
  have hs : s.Current := by
    rcases hnew with ⟨rate, h⟩ | ⟨pairs, rate, h⟩
    · exact Store.empty_current h
    · exact Store.ofPairs_current h
  have ht : (Project.run ⟨s, settings⟩ es).store.Current := Project.run_current hs es
  exact ⟨ht.playTime, ht.rates⟩

/-- A pair that was parked over a change of the rate. -/
theorem play_times_current_parked :
    ∃ s : Store Float, Store.empty 30.0 = .ok s ∧
      let t := (Project.run ⟨s, .initial⟩
        [.edit (.add 1.0 2.0 none), .edit .undoPair, .edit (.setRate 24.0),
          .edit .redoPair]).store
      t.pairs.length = 1 ∧ ∀ p ∈ t.pairs, p.playTime = t.engine.playTime p.map := by
  refine ⟨_, rfl, ?_, ?_⟩
  · decide
  · exact (play_times_current _ .initial (Or.inl ⟨30.0, rfl⟩) _).1

end Retime
