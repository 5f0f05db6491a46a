import Mathlib.Data.List.Induction
import Retime.Proofs.PairRows
import Retime.Proofs.PlayTimes

/-!
# One List of Pairs

Undoing and redoing the creation of pairs walks along one list.

Behind the pairs of a store stand the parked ones, the latest first. In that
row undoing only moves the line between the two one place back, and redoing
moves it forth again, so that the row is the list of pairs there was at first.
Two things could spoil this. A pair that comes back has its play time computed,
which changes nothing, as its play time was current when it was parked. And
only so many pairs are kept, so that parking one more loses the one at the far
end of the row.

How much is lost depends on how deep the walk went: on the largest number of
pairs that were undone at once, which counts those that are lost as well. That
number less the limit is lost for good, and going back and forth again loses
nothing more until the walk is deeper.

## Main definitions

* `Event.Walks`: An undoing or a redoing.
* `Project.Deepest`: How many pairs are undone at once along a walk.
* `Store.Walked`: A store on a walk along a list of pairs.

## Theorems

* `Project.after_limit`: No edit changes how many pairs are kept.
* `Store.Walked.park`, `Store.Walked.bringBack`: One step of a walk.
* `Project.run_walked`: What a walk leaves of the list.
* `Project.edit_undoPair_of_walked`, `Project.edit_redoPair_of_walked`: What a step
  tells, and what it leaves.
* `Project.run_undoPair_redoPair`: Going back and forth again.
* `undo_redo_walk_one_list`: A walk from a store that was reached by edits.
-/

namespace Retime

section Limit

variable {α : Type}

namespace Store

theorem onPair_eq_ok {β : Type} {index : Nat} {f : InPlace (MarkerError α) (Pair α) β}
    {s t : Store α} {b : β} (h : onPair index f s = .ok b t) :
    ∃ pairs, t = { s with pairs } := by
  unfold onPair at h
  cases hp : s.pair index with
  | error e => rw [hp] at h; cases h
  | ok p =>
      rw [hp] at h
      cases hq : f p with
      | error cause q => simp only [hq, reduceCtorEq] at h
      | ok b' q =>
          simp only [hq, EStateM.Result.ok.injEq] at h
          exact ⟨_, h.2.symm⟩

theorem setAllSpeeds_eq_ok [Scalar α] {speed : α} {s t : Store α} {b : Unit}
    (h : setAllSpeeds speed s = .ok b t) : ∃ pairs, t = { s with pairs } := by
  rcases InPlace.bind_eq_ok.mp h with ⟨m, u, hm, hpairs⟩
  rcases marking_eq_ok hm with ⟨-, rfl⟩
  change onPairs (remapped u.engine (Pair.setSpeed speed)) u = _ at hpairs
  unfold onPairs at hpairs
  cases heach : InPlace.each (remapped u.engine (Pair.setSpeed speed)) u.pairs with
  | error cause pairs => rw [heach] at hpairs; cases hpairs
  | ok b' pairs => rw [heach] at hpairs; cases hpairs; exact ⟨pairs, rfl⟩

end Store

namespace Project

/-- An edit of one pair or of all pairs leaves the rest of the store. -/
theorem edit_limit_of_pairs {β : Type} {f : InPlace (EditError α) (Store α) β} {k : β → Outcome α}
    {p q : Project α} {o : Outcome α} (h : (onStore f >>= fun b => pure (k b)) p = .ok o q)
    (hf : ∀ b t, f p.store = .ok b t → ∃ pairs, t = { p.store with pairs }) :
    q.store.parked.limit = p.store.parked.limit := by
  rcases reported_eq_ok h with ⟨b, t, ht, -, rfl⟩
  rcases hf b t ht with ⟨pairs, rfl⟩
  rfl

variable [Scalar α]

/-- No edit changes how many pairs are kept. -/
theorem edit_limit {e : Edit α} {p q : Project α} {o : Outcome α} (h : edit e p = .ok o q) :
    q.store.parked.limit = p.store.parked.limit := by
  cases e with
  | add start stop speed =>
      rcases reported_eq_ok (k := fun i => .place (some i)) h with ⟨b, t, ht, -, rfl⟩
      rcases Store.add_eq_ok ht with ⟨c, -, rfl⟩
      rfl
  | place time =>
      rcases reported_eq_ok (k := .placed) h with ⟨b, t, ht, -, rfl⟩
      -- A marker starts, is refused, or ends a pair, which is added as by hand.
      rw [Store.place_eq] at ht
      split at ht
      · cases ht
        rfl
      · split at ht
        · cases ht
        · split at ht
          · cases ht
          · case _ index u hadd =>
              cases ht
              rcases Store.add_eq_ok hadd with ⟨c, -, rfl⟩
              rfl
  | cancel => cases h; rfl
  | delete index =>
      exact edit_limit_of_pairs (k := .removed) h fun b t ht => ⟨_, Store.delete_eq_ok ht⟩
  | reorder source target =>
      exact edit_limit_of_pairs (k := fun _ => .done) h fun b t ht =>
        ⟨_, (Store.reorder_eq_ok ht).2⟩
  | undoPair =>
      rcases reported_eq_ok (k := .undone) h with ⟨b, t, ht, -, rfl⟩
      rw [Store.undoPair_eq] at ht
      split at ht <;> cases ht <;> rfl
  | redoPair =>
      rw [edit_redoPair] at h
      cases h
      rfl
  | move index side time =>
      exact edit_limit_of_pairs (k := fun _ => .done) h fun b t ht => Store.onPair_eq_ok ht
  | undoMove index =>
      exact edit_limit_of_pairs (k := .moved) h fun b t ht => Store.onPair_eq_ok ht
  | redoMove index =>
      exact edit_limit_of_pairs (k := .moved) h fun b t ht => Store.onPair_eq_ok ht
  | setSpeed index speed =>
      exact edit_limit_of_pairs (k := fun _ => .done) h fun b t ht => Store.onPair_eq_ok ht
  | setCrop index crop resolution =>
      exact edit_limit_of_pairs (k := fun _ => .done) h fun b t ht => Store.onPair_eq_ok ht
  | setOverrides index overrides =>
      exact edit_limit_of_pairs (k := fun _ => .done) h fun b t ht => Store.onPair_eq_ok ht
  | replaceMap index map =>
      exact edit_limit_of_pairs (k := fun _ => .done) h fun b t ht => Store.onPair_eq_ok ht
  | setAllSpeeds speed =>
      exact edit_limit_of_pairs (k := fun _ => .done) h fun b t ht => Store.setAllSpeeds_eq_ok ht
  | setAllCrops crop => cases h; rfl
  | rescale resolution => cases h; rfl
  | setRate rate =>
      rcases reported_eq_ok (k := fun _ => .done) h with ⟨b, t, ht, -, rfl⟩
      rw [Store.setRate_eq] at ht
      split at ht
      · cases ht
      · cases ht
        rfl

/-- No event changes how many pairs are kept. -/
theorem after_limit (p : Project α) (e : Event α) :
    (p.after e).store.parked.limit = p.store.parked.limit := by
  cases e with
  | choose settings => rfl
  | edit e =>
      change (InPlace.left (edit e p)).store.parked.limit = _
      cases hr : edit e p with
      | ok o q => exact edit_limit hr
      | error cause q => rw [edit_atomic e hr]; rfl

theorem run_limit (p : Project α) (es : List (Event α)) :
    (p.run es).store.parked.limit = p.store.parked.limit := by
  induction es generalizing p with
  | nil => rfl
  | cons e es ih => exact (ih (p.after e)).trans (after_limit p e)

end Project

end Limit

/-- An event that takes the last pair away or brings one back. -/
def Event.Walks {α : Type} (e : Event α) : Prop :=
  e = .edit .undoPair ∨ e = .edit .redoPair

/-- A store on a walk along a list of pairs. Of the pairs `deep` were undone at
    once so far, and `kept` can be parked. -/
structure Store.Walked {α : Type} [Scalar α] (kept : Nat) (ps : List (Pair α)) (deep : Nat)
    (s : Store α) : Prop where
  pending : s.pending = none
  limit : s.parked.limit = kept
  parked : s.parked.pairs.length ≤ kept
  row : s.rows.row = ps.take (ps.length - (deep - kept))
  undone : ps.length ≤ s.pairs.length + deep
  deep : deep ≤ ps.length
  /-- The play time of a pair stays what it is when it is brought back. -/
  settled : ∀ p ∈ ps, timed s.engine p = p

namespace Store

variable {α : Type} [Scalar α] {kept deep : Nat} {ps : List (Pair α)} {s : Store α}

theorem Walked.length (h : s.Walked kept ps deep) :
    s.pairs.length + s.parked.pairs.length = ps.length - (deep - kept) := by
  have hlength := congrArg List.length h.row
  rw [List.length_take, Rows.row, List.length_append] at hlength
  change s.pairs.length + s.parked.pairs.length = _ at hlength
  omega

/-- Undoing parks the last pair. It loses a pair if as many are parked as can
    be, and then it is deeper than ever. -/
theorem Walked.park (h : s.Walked kept ps deep) :
    (s.withRows (s.rows.park s.parked.limit)).Walked kept ps
      (max deep (ps.length - (s.pairs.length - 1))) := by
  have hlength := h.length
  have hundone := h.undone
  have hdeep := h.deep
  have hparked := h.parked
  obtain ⟨pairs, ⟨parked, limit⟩, pending, grid, engine⟩ := s
  obtain rfl : limit = kept := h.limit
  simp only at hlength hundone hparked
  rcases List.eq_nil_or_concat' pairs with rfl | ⟨qs, q, rfl⟩
  · -- Nothing is left to undo, and the walk cannot be deeper.
    have hmax : max deep (ps.length - (([] : List (Pair α)).length - 1)) = deep := by
      simp only [List.length_nil] at hundone ⊢
      omega
    rw [hmax]
    exact h
  · have hrow : qs ++ q :: parked = ps.take (ps.length - (deep - limit)) := by
      rw [← h.row]
      simp [rows, Rows.row]
    simp only [List.length_append, List.length_singleton] at hlength hundone ⊢
    have htake : qs ++ (q :: parked).take limit =
        ps.take (ps.length - (max deep (ps.length - (qs.length + 1 - 1)) - limit)) := by
      have hlong : qs ++ (q :: parked).take limit =
          (qs ++ q :: parked).take (qs.length + limit) := by
        rw [List.take_length_add_append]
      rw [hlong, hrow, List.take_take]
      congr 1
      omega
    refine ⟨h.pending, rfl, ?_, ?_, ?_, by omega, h.settled⟩
    · change (Rows.park limit ⟨qs ++ [q], parked⟩).parked.length ≤ limit
      rw [Rows.park_concat, List.length_take]
      omega
    · change (Rows.park limit ⟨qs ++ [q], parked⟩).row = _
      rw [Rows.park_concat]
      exact htake
    · change ps.length ≤ (Rows.park limit ⟨qs ++ [q], parked⟩).present.length + _
      rw [Rows.park_concat]
      simp only
      omega

/-- The parked pairs were in the list, so their play times are what is computed
    for them. -/
theorem Walked.timed_parked (h : s.Walked kept ps deep) {p : Pair α}
    (hp : p ∈ s.parked.pairs) : timed s.engine p = p := by
  have hmem : p ∈ s.rows.row := List.mem_append_right _ hp
  rw [h.row] at hmem
  exact h.settled p (List.mem_of_mem_take hmem)

/-- Redoing leaves the row. -/
theorem Walked.bringBack (h : s.Walked kept ps deep) :
    (s.withRows (s.rows.bringBack (Store.timed s.engine))).Walked kept ps deep := by
  have hrow : (s.rows.bringBack (Store.timed s.engine)).row = s.rows.row :=
    Rows.row_bringBack fun p => h.timed_parked
  have hundone := h.undone
  have hparked := h.parked
  obtain ⟨pairs, ⟨parked, limit⟩, pending, grid, engine⟩ := s
  refine ⟨h.pending, h.limit, ?_, hrow.trans h.row, ?_, h.deep, h.settled⟩
  · cases parked with
    | nil => exact hparked
    | cons q qs => exact Nat.le_trans (Nat.le_succ _) hparked
  · cases parked with
    | nil => exact hundone
    | cons q qs =>
        change ps.length ≤ (pairs ++ [Store.timed engine q]).length + deep
        rw [List.length_append]
        simp only at hundone
        omega

end Store

namespace Project

variable {α : Type} [Scalar α]

/-- The most pairs that are undone at once along a walk. -/
def Deepest (p : Project α) (walk : List (Event α)) (deep : Nat) : Prop :=
  (∀ pre, pre <+: walk → p.store.pairs.length ≤ (p.run pre).store.pairs.length + deep) ∧
    ∃ pre, pre <+: walk ∧ p.store.pairs.length = (p.run pre).store.pairs.length + deep

/-- There is one such number. -/
theorem Deepest.unique {p : Project α} {walk : List (Event α)} {deep deep' : Nat}
    (h : p.Deepest walk deep) (h' : p.Deepest walk deep') : deep = deep' := by
  rcases h.2 with ⟨pre, hpre, hdeep⟩
  rcases h'.2 with ⟨pre', hpre', hdeep'⟩
  have hle := h'.1 pre hpre
  have hle' := h.1 pre' hpre'
  omega

/-- One more step is as deep as the walk was, or deeper. -/
theorem Deepest.concat {p : Project α} {walk : List (Event α)} {e : Event α} {deep deep' : Nat}
    (h : p.Deepest walk deep)
    (hstep : p.store.pairs.length ≤ (p.run (walk ++ [e])).store.pairs.length + deep')
    (hdeep : deep' = deep ∨ deep < deep' ∧
      p.store.pairs.length = (p.run (walk ++ [e])).store.pairs.length + deep') :
    p.Deepest (walk ++ [e]) deep' := by
  refine ⟨fun pre hpre => ?_, ?_⟩
  · rcases List.prefix_concat_iff.mp hpre with rfl | hpre
    · exact hstep
    · -- What held along the walk is weaker for a deeper step.
      have hle := h.1 pre hpre
      omega
  · rcases hdeep with rfl | ⟨-, hdeep⟩
    · rcases h.2 with ⟨pre, hpre, hdeep⟩
      exact ⟨pre, hpre.trans (List.prefix_append walk [e]), hdeep⟩
    · exact ⟨_, List.prefix_refl _, hdeep⟩

/-- What a walk leaves of a list of pairs. -/
theorem run_walked {p : Project α} {kept : Nat}
    (hp : p.store.Walked kept p.store.pairs 0) {walk : List (Event α)}
    (hwalk : ∀ e ∈ walk, e.Walks) :
    ∃ deep, p.Deepest walk deep ∧ (p.run walk).store.Walked kept p.store.pairs deep := by
  -- The induction adds the latest step, which may make the walk deeper.
  induction walk using List.reverseRecOn with
  | nil =>
      refine ⟨0, ⟨fun pre hpre => ?_, [], List.prefix_refl _, rfl⟩, hp⟩
      rw [List.prefix_nil.mp hpre]
      exact Nat.le_refl _
  | append_singleton walk e ih =>
      rcases ih fun e he => hwalk e (List.mem_append_left _ he) with ⟨deep, hdeep, hq⟩
      have he : e.Walks := hwalk e (List.mem_append_right _ (List.mem_singleton_self e))
      have hrun := run_concat p walk e
      rcases he with rfl | rfl
      · rw [after_undoPair hq.pending] at hrun
        have hnew := hq.park
        -- The last pair is gone, if there was one.
        have hlast : (p.run (walk ++ [.edit .undoPair])).store.pairs.length =
            (p.run walk).store.pairs.length - 1 := by
          rw [hrun]
          change (Rows.park _ _).present.length = _
          rw [Rows.present_park, List.length_dropLast]
          rfl
        rw [hrun] at hlast ⊢
        have hundone := hnew.undone
        have hle := hnew.deep
        refine ⟨_, hdeep.concat ?_ ?_, hnew⟩
        · rw [hrun]
          exact hundone
        · rw [hrun]
          omega
      · rw [after_redoPair] at hrun
        have hnew := hq.bringBack
        rw [hrun]
        refine ⟨deep, hdeep.concat ?_ (Or.inl rfl), hnew⟩
        rw [hrun]
        exact hnew.undone

/-- On a walk undoing is never refused. It finds nothing only if there is no pair,
    and otherwise parks the last one in front of those that are parked. -/
theorem edit_undoPair_of_walked {q : Project α} {kept deep : Nat} {ps : List (Pair α)}
    (hq : q.store.Walked kept ps deep) :
    ∃ any r, edit .undoPair q = .ok (.undone any) r ∧
      (any = false ↔ q.store.pairs = []) ∧ (any = false → r = q) ∧
      ∀ front last, q.store.pairs = front ++ [last] →
        r = { q with
          store := q.store.withRows ⟨front, (last :: q.store.parked.pairs).take kept⟩ } := by
  refine ⟨_, _, edit_undoPair hq.pending, ?_, fun hany => ?_, fun front last hlast => ?_⟩
  · rw [Bool.not_eq_false', List.isEmpty_iff]
  · rw [Bool.not_eq_false', List.isEmpty_iff] at hany
    rw [Rows.park_nil _ hany]
    rfl
  · rw [Store.rows, hlast, Rows.park_concat, hq.limit]

/-- Nor is redoing. It finds nothing only if nothing is parked, and otherwise puts
    the latest parked pair behind the others. -/
theorem edit_redoPair_of_walked {q : Project α} {kept deep : Nat} {ps : List (Pair α)}
    (hq : q.store.Walked kept ps deep) :
    ∃ place r, edit .redoPair q = .ok (.place place) r ∧
      (place = none ↔ q.store.parked.pairs = []) ∧ (place = none → r = q) ∧
      ∀ latest rest, q.store.parked.pairs = latest :: rest →
        place = some q.store.pairs.length ∧
          r = { q with store := q.store.withRows ⟨q.store.pairs ++ [latest], rest⟩ } := by
  refine ⟨_, _, edit_redoPair q, ?_, fun hplace => ?_, fun latest rest hlatest => ⟨if_neg ?_, ?_⟩⟩
  · simp
  · have hnil : q.store.parked.pairs = [] := by simpa using hplace
    rw [Rows.bringBack_nil _ hnil]
    rfl
  · rw [hlatest]
    exact List.cons_ne_nil _ _
  · have hsettled : Store.timed q.store.engine latest = latest :=
      hq.timed_parked (hlatest ▸ List.mem_cons_self)
    rw [Rows.bringBack_cons hlatest hsettled]
    rfl

/-- Undoing again and again parks the last pairs, as many as can be parked. -/
theorem run_undoPair {p : Project α} (hpending : p.store.pending = none)
    (hparked : p.store.parked.pairs = []) (k : Nat) :
    p.run (List.replicate k (.edit .undoPair)) =
      { p with
        store := p.store.withRows
          ⟨p.store.pairs.take (p.store.pairs.length - k),
            (p.store.pairs.drop (p.store.pairs.length - k)).take p.store.parked.limit⟩ } := by
  induction k with
  | zero =>
      obtain ⟨⟨pairs, ⟨parked, limit⟩, pending, grid, engine⟩, settings⟩ := p
      obtain rfl : parked = [] := hparked
      rw [Nat.sub_zero, List.take_length, List.drop_length, List.take_nil]
      rfl
  | succ k ih =>
      -- Nothing comes to be pending on the way, so every undoing is one of a pair.
      have hidle : (p.run (List.replicate k (.edit .undoPair))).store.pending = none := by
        rw [ih]
        exact hpending
      rw [List.replicate_succ', run_concat, after_undoPair hidle, ih, ← Rows.park_take]
      rfl

/-- Redoing again and again brings the parked pairs back, the latest first. -/
theorem run_redoPair {p : Project α}
    (h : ∀ q ∈ p.store.parked.pairs, Store.timed p.store.engine q = q) (k : Nat) :
    p.run (List.replicate k (.edit .redoPair)) =
      { p with
        store := p.store.withRows
          ⟨p.store.pairs ++ p.store.parked.pairs.take k, p.store.parked.pairs.drop k⟩ } := by
  induction k with
  | zero =>
      rw [List.take_zero, List.append_nil]
      rfl
  | succ k ih =>
      -- One more redoing takes the next pair, whose time is what it would be computed to.
      rw [List.replicate_succ', run_concat, ih, after_redoPair, ← Rows.bringBack_take h]
      rfl

/-- So redoing goes forth along the list that undoing went back along, up to the
    pairs that were lost. -/
theorem run_undoPair_redoPair {p : Project α} (hpending : p.store.pending = none)
    (hparked : p.store.parked.pairs = [])
    (h : ∀ q ∈ p.store.pairs, Store.timed p.store.engine q = q) (k j : Nat) :
    p.run (List.replicate k (.edit .undoPair) ++ List.replicate j (.edit .redoPair)) =
      { p with
        store := p.store.withRows
          ⟨p.store.pairs.take (p.store.pairs.length - k + min j p.store.parked.limit),
            ((p.store.pairs.drop (p.store.pairs.length - k)).take
              p.store.parked.limit).drop j⟩ } := by
  have hundone := run_undoPair hpending hparked k
  -- The parked pairs are pairs of the list, so their times are current.
  have hback : ∀ q ∈ (p.run (List.replicate k (.edit .undoPair))).store.parked.pairs,
      Store.timed p.store.engine q = q := by
    rw [hundone]
    exact fun q hq => h q (List.mem_of_mem_drop (List.mem_of_mem_take hq))
  rw [run_append, List.take_add, ← List.take_take]
  rw [hundone] at hback ⊢
  exact run_redoPair hback j

/-- As many redoings as undoings restore everything, if no pair was lost. -/
theorem run_undoPair_redoPair_self {p : Project α} (hpending : p.store.pending = none)
    (hparked : p.store.parked.pairs = [])
    (h : ∀ q ∈ p.store.pairs, Store.timed p.store.engine q = q) {k : Nat}
    (hk : k ≤ p.store.parked.limit) :
    p.run (List.replicate k (.edit .undoPair) ++ List.replicate k (.edit .redoPair)) = p := by
  -- Nothing is cut off the list, and no parked pair is left behind.
  have hall : p.store.pairs.length ≤ p.store.pairs.length - k + min k p.store.parked.limit := by
    omega
  have hnone : ((p.store.pairs.drop (p.store.pairs.length - k)).take
      p.store.parked.limit).length ≤ k := by
    rw [List.length_take, List.length_drop]
    omega
  rw [run_undoPair_redoPair hpending hparked h, List.take_of_length_le hall,
    List.drop_of_length_le hnone, ← hparked]
  rfl

/-- As many undoings in a row as there are pairs are that deep. -/
theorem deepest_undoPair {p : Project α} (hpending : p.store.pending = none)
    (hparked : p.store.parked.pairs = []) {k : Nat}
    (hk : k ≤ p.store.pairs.length) : p.Deepest (List.replicate k (.edit .undoPair)) k := by
  have hlength : ∀ j, (p.run (List.replicate j (.edit .undoPair))).store.pairs.length =
      p.store.pairs.length - j := by
    intro j
    rw [run_undoPair hpending hparked]
    change (p.store.pairs.take _).length = _
    rw [List.length_take]
    omega
  refine ⟨fun pre hpre => ?_, _, List.prefix_refl _, ?_⟩
  · -- What is in front of undoings is a row of undoings too.
    have hundo : pre = List.replicate pre.length (.edit .undoPair) :=
      List.eq_replicate_of_mem fun e he => List.eq_of_mem_replicate (hpre.subset he)
    have hshort := hpre.length_le
    rw [List.length_replicate] at hshort
    rw [hundo, hlength]
    omega
  · rw [hlength]
    omega

end Project

namespace Store

variable {α : Type} [Scalar α]

/-- A walk begins where nothing is parked or pending and play times are
    current. -/
theorem Walked.start {s : Store α} (hpending : s.pending = none) (hparked : s.parked.pairs = [])
    (hcurrent : s.Current) : s.Walked s.parked.limit s.pairs 0 where
  pending := hpending
  limit := rfl
  parked := by
    rw [hparked]
    exact Nat.zero_le _
  row := by
    rw [Nat.zero_sub, Nat.sub_zero, List.take_length, Rows.row, rows, hparked, List.append_nil]
  undone := Nat.le_refl _
  deep := Nat.zero_le _
  settled p hp := by
    unfold timed
    rw [← hcurrent.playTime p hp]

/-- A store of pairs keeps as many parked pairs as an empty one. -/
theorem new_limit {s : Store α}
    (hnew : (∃ rate, empty rate = .ok s) ∨ ∃ pairs rate, ofPairs pairs rate = .ok s) :
    s.parked.limit = 100 := by
  rcases hnew with ⟨rate, h⟩ | ⟨pairs, rate, h⟩
  · rcases empty_eq_ok h with ⟨g, rfl⟩
    rfl
  · unfold ofPairs at h
    -- The pairs are put into an empty store, which has the limit.
    cases he : (empty rate : Except (EditError α) (Store α)) with
    | error e => rw [he] at h; cases h
    | ok t =>
        rw [he] at h
        cases h
        rcases empty_eq_ok he with ⟨g, rfl⟩
        rfl

theorem new_current {s : Store α}
    (hnew : (∃ rate, empty rate = .ok s) ∨ ∃ pairs rate, ofPairs pairs rate = .ok s) :
    s.Current := by
  rcases hnew with ⟨rate, h⟩ | ⟨pairs, rate, h⟩
  · exact empty_current h
  · exact ofPairs_current h

end Store

/-- Undoing and redoing walks along one list. Take any store that edits lead to,
    done or refused and with any settings at each, in which no start is pending
    and nothing is parked, and any row of undoings and redoings from there. The
    pairs of the store and behind them the parked ones, the latest first, are
    then the first pairs of the list that there was, all fields included. They
    are all of them unless more than a hundred were undone at once, and what is
    missing is as much as the largest depth is above a hundred; after `k`
    undoings in a row it is the last `k - 100`. Redoing then goes forth again up
    to what is missing, and if nothing is, as many redoings as undoings restore
    the whole session.

    Neither way is ever refused. Undoing finds nothing only in a store without
    pairs, and redoing only where nothing is parked, and then they leave
    everything as it was. Otherwise undoing parks the last pair in front of those
    that are parked, of which a hundred are kept, and redoing puts the latest of
    them behind the pairs, tells its place there, and both change nothing else. -/
theorem undo_redo_walk_one_list {α : Type} [Scalar α] (s : Store α) (settings : Settings α)
    (hnew : (∃ rate, Store.empty rate = .ok s) ∨ ∃ pairs rate, Store.ofPairs pairs rate = .ok s)
    (es : List (Event α)) (hpending : (Project.run ⟨s, settings⟩ es).store.pending = none)
    (hparked : (Project.run ⟨s, settings⟩ es).store.parked.pairs = [])
    (walk : List (Event α)) (hwalk : ∀ e ∈ walk, e.Walks) :
    let p := Project.run ⟨s, settings⟩ es
    let q := p.run walk
    let ps := p.store.pairs
    q.store.pairs ++ q.store.parked.pairs <+: ps ∧
    ((∀ pre, pre <+: walk → ps.length ≤ (p.run pre).store.pairs.length + 100) →
      q.store.pairs ++ q.store.parked.pairs = ps) ∧
    (∀ deep, p.Deepest walk deep →
      q.store.pairs ++ q.store.parked.pairs = ps.take (ps.length - (deep - 100))) ∧
    (∀ k, k ≤ ps.length →
      let u := (p.run (List.replicate k (.edit .undoPair))).store
      u.pairs = ps.take (ps.length - k) ∧
        u.pairs ++ u.parked.pairs = ps.take (ps.length - (k - 100))) ∧
    (∀ k j, (p.run (List.replicate k (.edit .undoPair) ++
        List.replicate j (.edit .redoPair))).store.pairs =
      ps.take (ps.length - k + min j 100)) ∧
    (∀ k, k ≤ 100 →
      p.run (List.replicate k (.edit .undoPair) ++ List.replicate k (.edit .redoPair)) = p) ∧
    (∃ any r, Project.edit .undoPair q = .ok (.undone any) r ∧
      (any = false ↔ q.store.pairs = []) ∧ (any = false → r = q) ∧
      ∀ front last, q.store.pairs = front ++ [last] →
        r = { q with
          store := q.store.withRows ⟨front, (last :: q.store.parked.pairs).take 100⟩ }) ∧
    ∃ place r, Project.edit .redoPair q = .ok (.place place) r ∧
      (place = none ↔ q.store.parked.pairs = []) ∧ (place = none → r = q) ∧
      ∀ latest rest, q.store.parked.pairs = latest :: rest →
        place = some q.store.pairs.length ∧
          r = { q with store := q.store.withRows ⟨q.store.pairs ++ [latest], rest⟩ } := by
  intro p q ps
  have hlimit : p.store.parked.limit = 100 := by
    rw [Project.run_limit]
    exact Store.new_limit hnew
  have hstart : p.store.Walked 100 ps 0 :=
    hlimit ▸ .start hpending hparked (Project.run_current (Store.new_current hnew) es)
  rcases Project.run_walked hstart hwalk with ⟨deep, hdeep, hq⟩
  have hrow : q.store.pairs ++ q.store.parked.pairs = ps.take (ps.length - (deep - 100)) := hq.row
  refine ⟨?_, fun hshallow => ?_, fun deep' hdeep' => ?_, fun k hk => ⟨?_, ?_⟩, fun k j => ?_,
    fun k hk => Project.run_undoPair_redoPair_self hpending hparked hstart.settled
      (hlimit.symm ▸ hk), Project.edit_undoPair_of_walked hq, Project.edit_redoPair_of_walked hq⟩
  · rw [hrow]
    exact List.take_prefix _ _
  · -- The largest depth was reached somewhere, so it is no more than a hundred.
    rcases hdeep.2 with ⟨pre, hpre, hreached⟩
    have hle := hshallow pre hpre
    change ps.length = _ at hreached
    have hnone : deep - 100 = 0 := by omega
    rw [hrow, hnone, Nat.sub_zero, List.take_length]
  · rw [hdeep'.unique hdeep]
    exact hrow
  · exact congrArg (fun r => r.store.pairs) (Project.run_undoPair hpending hparked k)
  · have hundo : ∀ e ∈ List.replicate k (Event.edit (α := α) .undoPair), e.Walks :=
      fun e he => Or.inl (List.eq_of_mem_replicate he)
    rcases Project.run_walked hstart hundo with ⟨deep', hdeep', hu⟩
    rw [hdeep'.unique (Project.deepest_undoPair hpending hparked hk)] at hu
    exact hu.row
  · rw [← hlimit]
    exact congrArg (fun r => r.store.pairs)
      (Project.run_undoPair_redoPair hpending hparked hstart.settled k j)

/-- More pairs than can be parked. -/
def crowd : List (Pair Float) :=
  List.replicate 102 (.ofMap ⟨⟨1.0, 1.0⟩, [], ⟨2.0, 1.0⟩⟩ .full)

/-- Of a hundred and two pairs that are all undone in a row, the last two are
    lost. -/
theorem undo_redo_walk_one_list_crowd :
    ∃ s : Store Float, Store.ofPairs crowd 30.0 = .ok s ∧
      s.pending = none ∧ s.parked.pairs = [] ∧ s.pairs.length = 102 ∧
      let u := (Project.run ⟨s, .initial⟩ (List.replicate 102 (.edit .undoPair))).store
      u.pairs ++ u.parked.pairs = s.pairs.take 100 := by
  have hnew : ∃ s, Store.ofPairs crowd 30.0 = .ok s := ⟨_, rfl⟩
  rcases hnew with ⟨s, hs⟩
  have hlength : s.pairs.length = 102 ∧ s.pending = none ∧ s.parked.pairs = [] := by
    cases hs
    simp [Store.refreshed, crowd, Parked.empty]
  rcases hlength with ⟨hlength, hpending, hparked⟩
  have hdeep : Project.Deepest ⟨s, .initial⟩ (List.replicate 102 (.edit .undoPair)) 102 :=
    Project.deepest_undoPair hpending hparked (Nat.le_of_eq hlength.symm)
  have hwalk := undo_redo_walk_one_list s .initial (Or.inr ⟨crowd, 30.0, hs⟩) [] hpending hparked
    (List.replicate 102 (.edit .undoPair)) fun e he => Or.inl (List.eq_of_mem_replicate he)
  have hundone := hwalk.2.2.1 102 hdeep
  rw [show Project.run ⟨s, .initial⟩ [] = ⟨s, .initial⟩ from rfl, hlength] at hundone
  exact ⟨s, hs, hpending, hparked, hlength, hundone⟩

end Retime
