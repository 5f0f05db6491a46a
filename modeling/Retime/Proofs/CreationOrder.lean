import Mathlib.Data.List.Induction
import Retime.Proofs.PairRows
import Retime.Scalar.Double

/-!
# The Order of Creation

Which pair it is that undoing takes away.

Undoing is meant for the pair that was created last. The store has no memory
of when pairs were created, and takes away the last pair of its list. The two
are the same as long as pairs stand in the order in which they were created.
Creating a pair puts it at the end, taking pairs away keeps the order of the
others, and a pair that comes back comes back to the end it was taken from,
since the parked pairs were all created later than those in the store. For
the induction this has to be said of both rows at once, which is the order of
the one row that they make.

A reorder is the one edit that does not keep the order, and it never does if
it moves a pair. The list is then no longer in order, and so, if one goes on
undoing, at some point an older pair goes before a younger one.

## Main definitions

* `Marked.UndoesLatest`: Undoing takes away the pair that was created last.
* `Marked.InOrder`: Pairs stand in the order in which they were created.
* `Marked.Unmoved`: A run in which no reorder moves a pair.

## Theorems

* `Marked.undoesLatest_iff`: Undoing takes the last pair of the list.
* `Marked.forall_undoesLatest_iff`: One after another goes if they are in order.
* `Marked.InOrder.after`, `Marked.inOrder_run`: What keeps them in order.
* `Marked.not_pairwise_moved`: A reorder that moves a pair does not.
* `Marked.exists_not_undoesLatest`: Then undoing will take an older pair at some
  point.
* `undo_takes_latest_unless_moved`: Undoing in a session.
* `latest_stays_behind_reorder`: The youngest pair stays after a reorder.
-/

namespace Retime

namespace Marked

variable {α : Type} [Scalar α]

/-- Undoing takes away the pair that was created last among those present. -/
def UndoesLatest (m : Marked α) : Prop :=
  ∃ p c, m.project.store.pairs = (m.after (.edit .undoPair)).project.store.pairs ++ [p] ∧
    m.marks.present = (m.after (.edit .undoPair)).marks.present ++ [c] ∧
    ∀ c' ∈ (m.after (.edit .undoPair)).marks.present, c' < c

omit [Scalar α] in
/-- All things in the row stand in the order in which they were created. -/
def InOrder (m : Marked α) : Prop := m.marks.row.Pairwise (· < ·)

/-- A run in which no reorder that is accepted moves a pair. -/
def Unmoved (m : Marked α) (es : List (Event α)) : Prop :=
  ∀ pre e, pre ++ [e] <+: es →
    ∀ source target, (m.run pre).project.shift e = .reorder source target → source = target

section Undoing

variable {m : Marked α}

/-- Undoing parks the last pair with its mark, if no start is pending. -/
theorem marks_after_undoPair (hm : m.Even) (h : m.project.store.pending = none) :
    (m.after (.edit .undoPair)).marks = m.marks.park m.project.store.parked.limit := by
  change m.marks.shift _ id m.time (m.project.shift (.edit .undoPair)) = _
  rw [Project.shift, Project.edit_undoPair h]
  cases hpairs : m.project.store.pairs with
  | nil =>
      -- Where there is no pair there is no mark either.
      have hnil : m.marks.present = [] := by
        rw [← List.length_eq_zero_iff, hm.present, hpairs]
        rfl
      rw [Rows.park_nil _ hnil]
      rfl
  | cons p ps => simp [Edit.shift, h, Rows.shift]

/-- Undoing takes the last pair of the list, and the last mark with it. -/
theorem present_after_undoPair (hm : m.Even) (h : m.project.store.pending = none) :
    (m.after (.edit .undoPair)).project.store.pairs = m.project.store.pairs.dropLast ∧
      (m.after (.edit .undoPair)).marks.present = m.marks.present.dropLast := by
  rw [marks_after_undoPair hm h]
  refine ⟨?_, Rows.present_park _ _⟩
  change (m.project.after (.edit .undoPair)).store.pairs = _
  rw [Project.after_undoPair h]
  exact Rows.present_park _ _

theorem pending_after_undoPair (h : m.project.store.pending = none) :
    (m.after (.edit .undoPair)).project.store.pending = none := by
  change (m.project.after (.edit .undoPair)).store.pending = none
  rw [Project.after_undoPair h]
  exact h

/-- Undoing takes away the pair that was created last if it is the last in the
    list. -/
theorem undoesLatest_iff (hm : m.Even) (h : m.project.store.pending = none) {cs : List Nat}
    {c : Nat} (hmarks : m.marks.present = cs ++ [c]) : m.UndoesLatest ↔ ∀ c' ∈ cs, c' < c := by
  rcases present_after_undoPair hm h with ⟨hpairs, hcs⟩
  rw [hmarks, List.dropLast_concat] at hcs
  unfold UndoesLatest
  rw [hpairs, hcs, hmarks]
  constructor
  · rintro ⟨p, d, -, hd, hlt⟩
    rw [List.append_cancel_left_eq, List.cons.injEq] at hd
    rw [hd.1]
    exact hlt
  · intro hlt
    -- There is a mark, so there is a pair to be taken away.
    have hlength := hm.present
    rw [hmarks, List.length_append, List.length_singleton] at hlength
    have hne : m.project.store.pairs ≠ [] := by
      rw [← List.length_pos_iff]
      omega
    exact ⟨_, c, (List.dropLast_concat_getLast hne).symm, rfl, hlt⟩

/-- Undoing again and again takes the last marks away. -/
theorem run_undoPair (hm : m.Even) (h : m.project.store.pending = none) (k : Nat) :
    let u := m.run (List.replicate k (.edit .undoPair))
    (u.Even ∧ u.project.store.pending = none) ∧
      u.marks.present = m.marks.present.take (m.marks.present.length - k) := by
  induction k generalizing m with
  | zero => exact ⟨⟨hm, h⟩, List.take_length.symm⟩
  | succ k ih =>
      -- The induction takes the first undoing off, after which one mark less is there.
      have hu := ih (hm.after (e := .edit .undoPair) trivial) (pending_after_undoPair h)
      refine ⟨hu.1, hu.2.trans ?_⟩
      rw [(present_after_undoPair hm h).2, List.length_dropLast, List.dropLast_eq_take,
        List.take_take]
      congr 1
      omega

/-- Undoing takes pair after pair away, the latest first, if and only if the
    pairs stand in the order in which they were created. -/
theorem forall_undoesLatest_iff (hm : m.Even) (h : m.project.store.pending = none) :
    (∀ k, k < m.project.store.pairs.length →
        (m.run (List.replicate k (.edit .undoPair))).UndoesLatest) ↔
      m.marks.present.Pairwise (· < ·) := by
  have hlength := hm.present
  -- After `k` undoings the last pair is the one at place `n - 1 - k`.
  have hundoes : ∀ i (hi : i < m.marks.present.length),
      (m.run (List.replicate (m.marks.present.length - 1 - i) (.edit .undoPair))).UndoesLatest ↔
        ∀ c ∈ m.marks.present.take i, c < m.marks.present[i] := by
    intro i hi
    rcases run_undoPair hm h (m.marks.present.length - 1 - i) with ⟨⟨heven, hpending⟩, hmarks⟩
    refine undoesLatest_iff heven hpending ?_
    rw [hmarks, show m.marks.present.length - (m.marks.present.length - 1 - i) = i + 1 by omega,
      List.take_append_getElem hi]
  rw [List.pairwise_iff_getElem, ← hlength]
  constructor
  · intro hall i j hi hj hij
    refine (hundoes j hj).mp (hall _ (by omega)) _ ?_
    rw [List.mem_take_iff_getElem]
    exact ⟨i, by omega, rfl⟩
  · intro hall k hk
    have hlast := (hundoes (m.marks.present.length - 1 - k) (by omega)).mpr fun c hc => by
      rcases List.mem_take_iff_getElem.mp hc with ⟨i, hi, rfl⟩
      exact hall i _ _ _ (by omega)
    rw [show m.marks.present.length - 1 - (m.marks.present.length - 1 - k) = k by omega] at hlast
    exact hlast

end Undoing

section Order

variable {m : Marked α}

omit [Scalar α] in
theorem start_inOrder (p : Project α) : (start p).InOrder := by
  rw [InOrder, start_row]
  exact List.pairwise_lt_range

/-- An event keeps the order, unless it is a reorder that moves a pair. -/
theorem InOrder.after (hm : m.InOrder) (hfresh : m.Fresh) {e : Event α}
    (he : ∀ source target, m.project.shift e = .reorder source target → source = target) :
    (m.after e).InOrder := by
  have hnew : (m.marks.row ++ [m.time]).Pairwise (· < ·) := by
    rw [List.pairwise_append]
    refine ⟨hm, List.pairwise_singleton _ _, fun c hc d hd => ?_⟩
    rw [List.mem_singleton.mp hd]
    exact hfresh.lt_time c hc
  rcases Rows.shift_row m.project.store.parked.limit m.time m.marks (m.project.shift e) with
    hsub | ⟨⟨source, target, hshift⟩, -⟩
  · exact hnew.sublist hsub
  · -- A pair that is moved to its own place is not moved.
    have hsame : (m.after e).marks = m.marks := by
      rw [Marked.after, hshift, he source target hshift]
      change (⟨moved target target m.marks.present, m.marks.parked⟩ : Rows Nat) = m.marks
      rw [moved_self]
    rw [InOrder, hsame]
    exact hm

/-- Pairs stay in order throughout a run that moves none. -/
theorem inOrder_run (hm : m.InOrder) (hfresh : m.Fresh) {es : List (Event α)}
    (hes : m.Unmoved es) : (m.run es).InOrder := by
  suffices h : ∀ pre, pre <+: es → (m.run pre).InOrder from h es (List.prefix_refl es)
  intro pre hpre
  induction pre using List.reverseRecOn with
  | nil => exact hm
  | append_singleton pre e ih =>
      rw [run_concat]
      exact (ih ((List.prefix_append pre [e]).trans hpre)).after (hfresh.run pre) (hes pre e hpre)

/-- Things in order are no longer in order when one is moved. -/
theorem not_pairwise_moved {cs : List Nat} (h : cs.Pairwise (· < ·)) {source target : Nat}
    (hsource : source < cs.length) (htarget : target < cs.length) (hne : source ≠ target) :
    ¬ (moved source target cs).Pairwise (· < ·) := by
  intro hmoved
  -- There is only one order for them, and in that they stood before.
  have hsame : moved source target cs = cs :=
    (moved_perm source target cs).eq_of_pairwise
      (fun _ _ _ _ hab hba => absurd hab (Nat.lt_asymm hba)) hmoved h
  have hplace := getElem?_moved_target hsource htarget
  rw [hsame] at hplace
  exact hne ((List.getElem?_inj hsource (h.imp Nat.ne_of_lt)).mp hplace.symm)

/-- A run is one that moves no pair if its reorders are of one place each. -/
theorem unmoved_of_forall {es : List (Event α)}
    (h : ∀ source target, .edit (.reorder source target) ∈ es → source = target) :
    m.Unmoved es := by
  intro pre e hpre source target hshift
  rcases Project.eq_reorder_of_shift hshift with ⟨rfl, -⟩
  exact h source target
    (hpre.subset (List.mem_append_right pre (List.mem_singleton_self _)))

/-- After a reorder that moves a pair, undoing at some point takes away another
    than the latest. -/
theorem exists_not_undoesLatest (hm : m.Even) (hpending : m.project.store.pending = none)
    (horder : m.marks.present.Pairwise (· < ·)) {source target : Nat}
    (hsource : source < m.project.store.pairs.length)
    (htarget : target < m.project.store.pairs.length) (hne : source ≠ target) :
    ∃ k, k < m.project.store.pairs.length ∧
      ¬ ((m.after (.edit (.reorder source target))).run
        (List.replicate k (.edit .undoPair))).UndoesLatest := by
  have hedit := Project.edit_reorder hsource htarget
  have hproject : (m.after (.edit (.reorder source target))).project =
      { m.project with store.pairs := moved source target m.project.store.pairs } := by
    change InPlace.left (Project.edit (.reorder source target) m.project) = _
    rw [hedit]
    rfl
  have hmarks : (m.after (.edit (.reorder source target))).marks.present =
      moved source target m.marks.present := by
    have hshift : m.project.shift (.edit (.reorder source target)) = .reorder source target := by
      rw [Project.shift, hedit]
      rfl
    rw [Marked.after, hshift]
    rfl
  have hlength : (m.after (.edit (.reorder source target))).project.store.pairs.length =
      m.project.store.pairs.length := by
    rw [hproject]
    exact length_moved _ _ _
  -- Otherwise the marks would be in order still.
  by_contra hnone
  refine not_pairwise_moved horder (hm.present ▸ hsource) (hm.present ▸ htarget) hne ?_
  rw [← hmarks]
  refine (forall_undoesLatest_iff (hm.after (e := .edit (.reorder source target)) trivial)
    (by rw [hproject]; exact hpending)).mp ?_
  intro k hk
  by_contra hnot
  exact hnone ⟨k, hlength ▸ hk, hnot⟩

end Order

end Marked

/-- Undoing takes pairs away from the end of the list. So it takes them away
    latest first, one after another, if and only if they stand in the order in
    which they were created, where a pair that is brought back counts from its
    first creation. Take any run that creates pairs, undoes and redoes them,
    deletes them and reorders them, from a store that is empty, or whose pairs
    count as created in their order. As long as no reorder has moved a pair, the
    next undoing takes away the pair that was created last among those present.
    The first reorder that moves one puts an end to it: after some number of
    undoings the next one takes another pair. -/
theorem undo_takes_latest_unless_moved {α : Type} [Scalar α] (p : Project α)
    (es : List (Event α)) (hes : ∀ e ∈ es, e.Arranges)
    (hpending : (p.run es).store.pending = none) :
    let m := (Marked.start p).run es
    let n := m.project.store.pairs.length
    ((∀ k, k < n → (m.run (List.replicate k (.edit .undoPair))).UndoesLatest) ↔
      m.marks.present.Pairwise (· < ·)) ∧
    ((Marked.start p).Unmoved es →
      (m.project.store.pairs ≠ [] → m.UndoesLatest) ∧
      ∀ source target, source < n → target < n → source ≠ target →
        ∃ k, k < n ∧ ¬ ((m.after (.edit (.reorder source target))).run
          (List.replicate k (.edit .undoPair))).UndoesLatest) := by
  intro m n
  have heven : m.Even := (Marked.start_even p).run hes
  have hnone : m.project.store.pending = none := by
    rw [Marked.run_project]
    exact hpending
  have hiff := Marked.forall_undoesLatest_iff heven hnone
  refine ⟨hiff, fun hunmoved => ?_⟩
  -- As long as nothing was moved, marks stand in their order, those of parked pairs included.
  have horder : m.InOrder :=
    Marked.inOrder_run (Marked.start_inOrder p) (Marked.start_fresh p) hunmoved
  have hpresent : m.marks.present.Pairwise (· < ·) :=
    horder.sublist (List.sublist_append_left m.marks.present m.marks.parked)
  refine ⟨fun hne => ?_, fun source target hsource htarget hmoved => ?_⟩
  · exact hiff.mpr hpresent 0 (List.length_pos_iff.mpr hne)
  · exact Marked.exists_not_undoesLatest heven hnone hpresent hsource htarget hmoved

/-- Pairs come and go, and none is moved. -/
def comings : List (Event Float) :=
  [.edit (.add 1.0 2.0 none), .edit (.place 3.0), .edit (.place 4.0), .edit (.add 5.0 6.0 none),
    .edit .undoPair, .edit .redoPair, .edit (.delete 1), .edit (.reorder 0 0)]

/-- A session without pairs. -/
def blank : Project Float where
  store := ⟨[], .empty Parked.storeLimit, none, ⟨30.0⟩, ⟨30.0⟩⟩
  settings := .initial

/-- The pair that came back is the latest that is left. -/
theorem undo_takes_latest_unless_moved_comings :
    Store.empty 30.0 = .ok blank.store ∧ (∀ e ∈ comings, e.Arranges) ∧
      (blank.run comings).store.pending = none ∧ (Marked.start blank).Unmoved comings ∧
      ((Marked.start blank).run comings).marks.present = [0, 3] ∧
      ((Marked.start blank).run comings).UndoesLatest := by
  have harranges : ∀ e ∈ comings, e.Arranges := by simp [comings, Event.Arranges]
  -- The run is short enough to be followed to its end.
  have hpending : (blank.run comings).store.pending = none := by decide +kernel
  have hunmoved : (Marked.start blank).Unmoved comings :=
    Marked.unmoved_of_forall (by simp [comings])
  have hpairs : ((Marked.start blank).run comings).project.store.pairs ≠ [] :=
    List.ne_nil_of_length_pos (by decide +kernel)
  exact ⟨rfl, harranges, hpending, hunmoved, by decide +kernel,
    ((undo_takes_latest_unless_moved blank comings harranges hpending).2 hunmoved).1 hpairs⟩

/-- Two pairs are created, and the one that was created last is moved to the
    front. -/
def overtaking : List (Event Float) :=
  [.edit (.add 1.0 2.0 none), .edit (.add 3.0 4.0 none), .edit (.reorder 1 0)]

/-- Undoing takes the pair that was created first, and the latest stays. -/
theorem latest_stays_behind_reorder :
    Store.empty 30.0 = .ok blank.store ∧ (∀ e ∈ overtaking, e.Arranges) ∧
      (blank.run overtaking).store.pending = none ∧ (blank.run overtaking).store.pairs ≠ [] ∧
      ¬ ((Marked.start blank).run overtaking).UndoesLatest := by
  have harranges : ∀ e ∈ overtaking, e.Arranges := by simp [overtaking, Event.Arranges]
  have hpending : (blank.run overtaking).store.pending = none := by decide +kernel
  have hmarks : ((Marked.start blank).run overtaking).marks.present = [1] ++ [0] := by
    decide +kernel
  refine ⟨rfl, harranges, hpending, List.ne_nil_of_length_pos (by decide +kernel), ?_⟩
  rw [Marked.undoesLatest_iff ((Marked.start_even blank).run harranges)
    (by rw [Marked.run_project]; exact hpending) hmarks]
  simp

end Retime
