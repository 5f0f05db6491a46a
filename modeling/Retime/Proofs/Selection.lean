import Mathlib.Data.List.Induction
import Mathlib.Data.List.Infix
import Retime.Preview.Session
import Retime.Proofs.PairRows
import Retime.Scalar.Double

/-!
# The Selection Stays with Its Pair

A selected pair stays selected wherever it goes, and until it is gone.

The selection of a session is a place. The session does not see the store, and
is told by the editor when a pair is taken away, deleted or undone, and when
one is moved. From that it works out where the selected pair is now, by
counting, while the store takes pairs out of its list and puts them back in.
The two are separate accounts of the same places, and they agree at each shift
(`Session.told_some`, `Session.told_none`), of whatever things the list consists.

That it is the same pair is said twice. The pair at the selected place has the
mark that the selected pair had at first, and it is equal to that pair in all
fields, as no edit of these changes a pair that stays in the store.

## Main definitions

* `Session.told`: What a session makes of the shift of an event.
* `Session.follow`: A session in which an editor works.

## Theorems

* `getElem?_moved`: Where a thing is after another was moved.
* `Session.told_some`, `Session.told_none`: The selection after one event.
* `Marked.selects_or_gone`: The selection throughout a run.
* `selection_follows_pair`: The selection after a run of events.
-/

namespace Retime

section Moved

variable {β : Type} {l : List β} {source target i : Nat}

/-- The things between two places give way by one place when another is moved
    from the one to the other. -/
theorem getElem?_moved (hsource : source < l.length) (htarget : target < l.length) :
    (moved source target l)[
        if i = source then target
        else if source < i ∧ i ≤ target then i - 1
        else if target ≤ i ∧ i < source then i + 1
        else i]? = l[i]? := by
  have hlength : (l.eraseIdx source).length = l.length - 1 :=
    List.length_eraseIdx_of_lt hsource
  by_cases hself : i = source
  · rw [if_pos hself, getElem?_moved_target hsource htarget, hself]
  rw [if_neg hself, moved_of_lt hsource htarget, List.getElem?_insertIdx]
  by_cases hback : source < i ∧ i ≤ target
  · rw [if_pos hback, if_pos (by omega), List.getElem?_eraseIdx, if_neg (by omega),
      show i - 1 + 1 = i by omega]
  rw [if_neg hback]
  by_cases hforth : target ≤ i ∧ i < source
  · rw [if_pos hforth, if_neg (by omega), if_neg (by omega), List.getElem?_eraseIdx,
      if_pos (by omega), Nat.add_sub_cancel]
  rw [if_neg hforth]
  -- What is on the same side of both places stays.
  by_cases hfront : i < source
  · rw [if_pos (by omega), List.getElem?_eraseIdx, if_pos hfront]
  · rw [if_neg (by omega), if_neg (by omega), List.getElem?_eraseIdx, if_neg (by omega),
      show i - 1 + 1 = i by omega]

end Moved

namespace Session

variable {α : Type}

/-- The session after it is told of a pair that was taken away or moved. There
    are `count` pairs now, so one that was last before was at that place. -/
def told (count : Nat) (s : Session α) : Shift → Session α
  | .remove index => s.afterRemoval index
  | .reorder source target => s.afterMove source target
  | .park => s.afterRemoval count
  | _ => s

variable {β : Type} {s : Session α} {l : List β} {b : β} {index i j : Nat}

/-- A selection that is left after a removal is at the place of the same
    thing. -/
theorem afterRemoval_some (hs : s.selected = some i) (hb : l[i]? = some b)
    (hj : (s.afterRemoval index).selected = some j) : (l.eraseIdx index)[j]? = some b := by
  change s.selected.bind _ = some j at hj
  rw [hs, Option.bind_some] at hj
  rw [List.getElem?_eraseIdx, ← hb]
  by_cases hself : i = index
  · rw [if_pos hself] at hj
    cases hj
  rw [if_neg hself] at hj
  -- What stood behind the removed place moves up by one, and so does the selection.
  by_cases hlater : index < i
  · rw [if_pos hlater, Option.some_inj] at hj
    rw [if_neg (by omega), show j + 1 = i by omega]
  · rw [if_neg hlater, Option.some_inj] at hj
    rw [if_pos (by omega), hj]

/-- A selection is given up by the removal of what is at its place only. -/
theorem afterRemoval_none (hs : s.selected = some i)
    (hnone : (s.afterRemoval index).selected = none) : index = i := by
  change s.selected.bind _ = none at hnone
  rw [hs, Option.bind_some] at hnone
  by_cases hself : i = index
  · exact hself.symm
  rw [if_neg hself] at hnone
  by_cases hlater : index < i
  · rw [if_pos hlater] at hnone
    cases hnone
  · rw [if_neg hlater] at hnone
    cases hnone

variable {sh : Shift} {r : Rows β} {limit : Nat} {touch : β → β} {new : β}

/-- Where there is a last thing, parking it is removing it from its place. -/
theorem present_park_eq_eraseIdx (hb : r.present[i]? = some b) :
    (r.park limit).present = r.present.eraseIdx (r.park limit).present.length := by
  rcases List.getElem?_eq_some_iff.mp hb with ⟨hi, -⟩
  rw [Rows.present_park, List.length_dropLast, List.eraseIdx_length_sub_one]

/-- A thing that is put at the end leaves the others at their places. -/
theorem getElem?_concat_of_some (hb : l[i]? = some b) : (l ++ [new])[i]? = some b := by
  rcases List.getElem?_eq_some_iff.mp hb with ⟨hi, -⟩
  rw [List.getElem?_append_left hi, hb]

/-- A selection stays with the thing that was at its place, as long as there is
    a selection. -/
theorem told_some (hs : s.selected = some i) (hb : r.present[i]? = some b)
    (hreorder : ∀ source target, sh = .reorder source target →
      source < r.present.length ∧ target < r.present.length)
    (hj : (s.told (r.shift limit touch new sh).present.length sh).selected = some j) :
    (r.shift limit touch new sh).present[j]? = some b := by
  have hstays : s.selected = some j → j = i := fun h => Option.some.inj (h.symm.trans hs)
  -- One case for each way the row can shift, of which only three move what is selected.
  cases sh with
  | stay =>
      rw [hstays hj]
      exact hb
  | create =>
      rw [hstays hj]
      exact getElem?_concat_of_some hb
  | remove index => exact afterRemoval_some hs hb hj
  | reorder source target =>
      rcases hreorder source target rfl with ⟨hsource, htarget⟩
      change s.selected.map _ = some j at hj
      rw [hs, Option.map_some, Option.some_inj] at hj
      rw [← hj]
      exact (getElem?_moved hsource htarget).trans hb
  | park =>
      change (r.park limit).present[j]? = some b
      rw [present_park_eq_eraseIdx hb]
      exact afterRemoval_some hs hb hj
  | bringBack =>
      rw [hstays hj]
      change (r.bringBack touch).present[i]? = some b
      unfold Rows.bringBack
      split
      · exact hb
      · exact getElem?_concat_of_some hb

/-- A selection is given up when the thing at its place is taken away, and only
    then. -/
theorem told_none (hs : s.selected = some i) (hb : r.present[i]? = some b)
    (hnone : (s.told (r.shift limit touch new sh).present.length sh).selected = none) :
    (r.shift limit touch new sh).present = r.present.eraseIdx i := by
  have hnot : s.selected ≠ none := by
    rw [hs]
    exact Option.some_ne_none i
  -- Only what takes a thing away can end a selection, and it takes the selected one.
  cases sh with
  | remove index => exact congrArg _ (afterRemoval_none hs hnone)
  | reorder source target =>
      change s.selected.map _ = none at hnone
      exact absurd (Option.map_eq_none_iff.mp hnone) hnot
  | park =>
      change (r.park limit).present = _
      rw [present_park_eq_eraseIdx hb]
      exact congrArg _ (afterRemoval_none hs hnone)
  | _ => exact absurd hnone hnot

/-- Where nothing is selected, nothing will be. -/
theorem told_of_none (count : Nat) (sh : Shift) (hs : s.selected = none) :
    (s.told count sh).selected = none := by
  -- Each of the three only changes a place that is selected.
  cases sh with
  | remove index =>
      change s.selected.bind _ = none
      rw [hs, Option.bind_none]
  | reorder source target =>
      change s.selected.map _ = none
      rw [hs, Option.map_none]
  | park =>
      change s.selected.bind _ = none
      rw [hs, Option.bind_none]
  | _ => exact hs

variable [Scalar α]

/-- A session that is told of every event in the store. -/
def follow (p : Project α) : List (Event α) → Session α → Session α
  | [], s => s
  | e :: es, s => follow (p.after e) es (s.told (p.after e).store.pairs.length (p.shift e))

theorem follow_concat (p : Project α) (es : List (Event α)) (e : Event α) (s : Session α) :
    s.follow p (es ++ [e]) =
      (s.follow p es).told ((p.run es).after e).store.pairs.length ((p.run es).shift e) := by
  induction es generalizing p s with
  | nil => rfl
  | cons f es ih => exact ih (p.after f) _

end Session

namespace Marked

variable {α : Type} [Scalar α]

/-- The selection of a session is the place of a pair with a mark and all its
    fields. -/
def Selects (m : Marked α) (mark : Nat) (p : Pair α) (s : Session α) : Prop :=
  ∃ i, s.selected = some i ∧ m.marks.present[i]? = some mark ∧ m.project.store.pairs[i]? = some p

/-- After an event the selection is still that of the pair, or it is given up
    and the mark is gone. -/
theorem Selects.told {m : Marked α} (heven : m.Even) (hfresh : m.Fresh) {mark : Nat} {p : Pair α}
    {s : Session α} (h : m.Selects mark p s) {e : Event α} (he : e.Arranges) :
    let t := s.told (m.after e).project.store.pairs.length (m.project.shift e)
    (m.after e).Selects mark p t ∨ t.selected = none ∧ mark ∉ (m.after e).marks.present := by
  intro t
  rcases h with ⟨i, hs, hmark, hp⟩
  rcases m.project.after_rows he with ⟨new, hrows⟩
  have hlength := (heven.after he).present
  have hreorder : ∀ source target, m.project.shift e = .reorder source target →
      source < m.project.store.pairs.length ∧ target < m.project.store.pairs.length :=
    fun source target hshift => (Project.eq_reorder_of_shift hshift).2
  -- Both the marks and the pairs go where the shift takes them.
  have hcount : t = s.told (m.after e).marks.present.length (m.project.shift e) := by
    rw [hlength]
  have hpairs : (m.after e).project.store.pairs = _ := congrArg Rows.present hrows
  cases ht : t.selected with
  | some j =>
      refine Or.inl ⟨j, ht, ?_, ?_⟩
      · rw [hcount] at ht
        refine Session.told_some hs hmark ?_ ht
        rw [heven.present]
        exact hreorder
      · change (s.told (m.after e).project.store.pairs.length _).selected = _ at ht
        rw [hpairs] at ht ⊢
        exact Session.told_some hs hp hreorder ht
  | none =>
      refine Or.inr ⟨rfl, ?_⟩
      rw [hcount] at ht
      have herased : (m.after e).marks.present = m.marks.present.eraseIdx i :=
        Session.told_none hs hmark ht
      -- All marks are different, so there was no other like it.
      have hnodup : m.marks.present.Nodup :=
        (List.sublist_append_left _ m.marks.parked).nodup hfresh.nodup
      rcases List.getElem?_eq_some_iff.mp hmark with ⟨hi, rfl⟩
      rw [← (List.getElem_cons_eraseIdx_perm hi).nodup_iff, List.nodup_cons] at hnodup
      rw [herased]
      exact hnodup.1

/-- Throughout a run the selection is that of the pair, until an event takes the
    pair away, and from then on there is none. -/
theorem selects_or_gone {p : Project α} {session : Session α} {mark : Nat} {pair : Pair α}
    (hstart : (start p).Selects mark pair session) {es : List (Event α)}
    (hes : ∀ e ∈ es, e.Arranges) :
    (∀ pre, pre <+: es → mark ∈ ((start p).run pre).marks.present) ∧
        ((start p).run es).Selects mark pair (session.follow p es) ∨
      (∃ pre, pre <+: es ∧ mark ∉ ((start p).run pre).marks.present) ∧
        (session.follow p es).selected = none := by
  -- The induction adds the latest event.
  induction es using List.reverseRecOn with
  | nil =>
      refine Or.inl ⟨fun pre hpre => ?_, hstart⟩
      rcases hstart with ⟨i, -, hmark, -⟩
      rw [List.prefix_nil.mp hpre]
      exact List.mem_of_getElem? hmark
  | append_singleton es e ih =>
      have hbefore : ∀ f ∈ es, f.Arranges := fun f hf => hes f (List.mem_append_left _ hf)
      have he : e.Arranges := hes e (List.mem_append_right es List.mem_cons_self)
      rw [Session.follow_concat p es e session]
      rcases ih hbefore with ⟨hin, hselects⟩ | ⟨⟨pre, hpre, hout⟩, hnone⟩
      · have hnext := hselects.told ((start_even p).run hbefore) ((start_fresh p).run es) he
        rw [← run_concat] at hnext
        rw [run_project, run_project, Project.run_concat] at hnext
        rcases hnext with hnext | ⟨hnone, hout⟩
        · refine Or.inl ⟨fun pre hpre => ?_, hnext⟩
          rcases List.prefix_concat_iff.mp hpre with rfl | hpre
          · rcases hnext with ⟨i, -, hmark, -⟩
            exact List.mem_of_getElem? hmark
          · exact hin pre hpre
        · exact Or.inr ⟨⟨es ++ [e], List.prefix_refl _, hout⟩, hnone⟩
      · exact Or.inr ⟨⟨pre, hpre.trans (List.prefix_append es [e]), hout⟩,
          Session.told_of_none _ _ hnone⟩

end Marked

/-- The selection follows its pair. Take any session with a selected pair, and
    any run of events that create pairs, undo and redo them, delete and reorder
    them, of which the session is told those that take a pair away or move it.
    As long as the pair has not been removed, its place is the selected one,
    where it is found again with all its fields. From its removal on nothing is
    selected, even if it comes back. -/
theorem selection_follows_pair {α : Type} [Scalar α] (p : Project α) (session : Session α)
    (place : Nat) (pair : Pair α) (hpair : p.store.pairs[place]? = some pair)
    (hselected : session.selected = some place) (es : List (Event α))
    (hes : ∀ e ∈ es, e.Arranges) :
    let marks := fun pre => ((Marked.start p).run pre).marks.present
    let s := session.follow p es
    ((∀ pre, pre <+: es → place ∈ marks pre) →
      ∃ i, s.selected = some i ∧ i < (p.run es).store.pairs.length ∧
        (marks es)[i]? = some place ∧ (p.run es).store.pairs[i]? = some pair) ∧
    ((∃ pre, pre <+: es ∧ place ∉ marks pre) → s.selected = none) := by
  intro marks s
  -- At the start every pair has its own place for a mark.
  have hmark : (Marked.start p).marks.present[place]? = some place :=
    List.getElem?_range (List.getElem?_eq_some_iff.mp hpair).1
  rcases Marked.selects_or_gone ⟨place, hselected, hmark, hpair⟩ hes with
    ⟨hin, i, hi, hmark, hp⟩ | ⟨⟨pre, hpre, hout⟩, hnone⟩
  · rw [Marked.run_project] at hp
    rcases List.getElem?_eq_some_iff.mp hp with ⟨hlt, -⟩
    exact ⟨fun _ => ⟨i, hi, hlt, hmark, hp⟩, fun ⟨pre, hpre, hout⟩ => absurd (hin pre hpre) hout⟩
  · exact ⟨fun hin => absurd (hin pre hpre) hout, fun _ => hnone⟩

/-- Three pairs, one after another. -/
def trio : List (Pair Float) :=
  [.ofMap ⟨⟨1.0, 1.0⟩, [], ⟨2.0, 1.0⟩⟩ .full, .ofMap ⟨⟨3.0, 1.0⟩, [], ⟨4.0, 1.0⟩⟩ .full,
    .ofMap ⟨⟨5.0, 1.0⟩, [], ⟨6.0, 1.0⟩⟩ .full]

/-- The second pair is moved to the end, and to the front when others have come
    and gone. -/
def jostling : List (Event Float) :=
  [.edit (.reorder 1 2), .edit (.delete 0), .edit (.add 7.0 8.0 none), .edit .undoPair,
    .edit (.reorder 1 0), .edit .redoPair]

/-- The second pair is selected and stays so until it is undone, and is not
    selected again when it comes back. -/
theorem selection_follows_pair_jostling :
    let p : Project Float := ⟨⟨trio, .empty Parked.storeLimit, none, ⟨30.0⟩, ⟨30.0⟩⟩, .initial⟩
    let session : Session Float := { Session.initial with selected := some 1 }
    let away : List (Event Float) := [.edit (.reorder 0 2), .edit .undoPair, .edit .redoPair]
    (∃ i, (session.follow p jostling).selected = some i ∧
      (p.run jostling).store.pairs[i]? = trio[1]?) ∧
    (session.follow p (jostling ++ away)).selected = none := by
  intro p session away
  have hpair : p.store.pairs[1]? = some trio[1] := rfl
  have hstays : ∀ pre, pre <+: jostling → 1 ∈ ((Marked.start p).run pre).marks.present := by
    intro pre hpre
    -- There are as many prefixes as events and one more, so each can be looked at.
    rw [← List.mem_inits] at hpre
    revert pre
    decide +kernel
  have hgone : 1 ∉ ((Marked.start p).run (jostling ++ away.take 2)).marks.present := by
    decide +kernel
  rcases (selection_follows_pair p session 1 trio[1] hpair rfl jostling
    (by simp [jostling, Event.Arranges])).1 hstays with ⟨i, hi, -, -, hp⟩
  refine ⟨⟨i, hi, hp⟩, ?_⟩
  refine (selection_follows_pair p session 1 trio[1] hpair rfl (jostling ++ away)
    (by simp [jostling, away, Event.Arranges])).2 ⟨jostling ++ away.take 2, ?_, hgone⟩
  exact (List.prefix_append_right_inj jostling).mpr (List.take_prefix 2 away)

end Retime
