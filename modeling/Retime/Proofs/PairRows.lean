import Mathlib.Data.List.Perm.Basic
import Retime.Proofs.StoreEdits

/-!
# Where Pairs Go

What edits do to the pairs of a store as wholes: which of them are in the
store, which are parked, and in what order.

A pair has no name. Two pairs may agree in every field, so whether the pair at
some place is the one that was at another place before cannot be asked of the
pairs alone. It is asked of marks that are kept beside them, one for each
pair. The marks stand in two rows, as the pairs do, and every rearrangement of
the pairs is made of the marks too.

For this an edit is reduced to a `Shift`, which is all that the report of the
edit says of places, and shifts act on rows of anything. That the pairs of a
store really go where the shift of an edit takes them is `Project.after_rows`.
What is proved of the rows from then on is about lists, and no longer about
edits.

Of the rows it helps to think as of one, the parked ones standing behind the
others. Parking the last pair and bringing it back then moves only the line
between the two, and it is at the far end that pairs get lost. In that one row
nothing but a reorder changes the order of two things.

## Main definitions

* `Rows`, `Rows.row`: Things in a store and parked things, and all in one row.
* `Shift`, `Rows.shift`: What an edit does to the places of things.
* `Event.Arranges`: An event that leaves each pair as it is.
* `Project.shift`: The shift of an event.
* `Marked`: A session in which every pair bears a mark.

## Theorems

* `Rows.row_park`, `Rows.row_bringBack`: Going back and forth along one row.
* `Rows.park_take`, `Rows.bringBack_take`: Going on in one direction.
* `Rows.shift_row`: A shift adds to the row at its end, or reorders it.
* `Project.after_rows`: The pairs of a store go where the shift takes them.
* `Marked.Even.run`: There is one mark for each pair.
-/

namespace Retime

/-- A list with the element at one place taken to another, where there are
    both places. -/
def moved {β : Type} (source target : Nat) (l : List β) : List β :=
  if h : source < l.length ∧ target < l.length then
    (l.eraseIdx source).insertIdx target l[source]
  else l

section Moved

variable {β : Type} {l : List β} {source target : Nat}

theorem moved_of_lt (hsource : source < l.length) (htarget : target < l.length) :
    moved source target l = (l.eraseIdx source).insertIdx target l[source] :=
  dif_pos ⟨hsource, htarget⟩

theorem moved_perm (source target : Nat) (l : List β) : (moved source target l).Perm l := by
  unfold moved
  split
  · case _ h =>
      have hlength : (l.eraseIdx source).length = l.length - 1 :=
        List.length_eraseIdx_of_lt h.1
      exact (List.perm_insertIdx _ _ (by omega)).trans (List.getElem_cons_eraseIdx_perm h.1)
  · exact List.Perm.refl l

theorem length_moved (source target : Nat) (l : List β) :
    (moved source target l).length = l.length :=
  (moved_perm source target l).length_eq

/-- What is moved to its own place stays. -/
theorem moved_self (source : Nat) (l : List β) : moved source source l = l := by
  unfold moved
  split
  · case _ h => exact List.insertIdx_eraseIdx_getElem h.1
  · rfl

/-- What is moved comes to its place. -/
theorem getElem?_moved_target (hsource : source < l.length) (htarget : target < l.length) :
    (moved source target l)[target]? = l[source]? := by
  have hlength : (l.eraseIdx source).length = l.length - 1 :=
    List.length_eraseIdx_of_lt hsource
  rw [moved_of_lt hsource htarget, List.getElem?_insertIdx, List.getElem?_eq_getElem hsource]
  simp [show target ≤ (l.eraseIdx source).length by omega]

end Moved

/-- Things that are in a store, and things that are parked, the latest
    first. -/
structure Rows (β : Type) where
  present : List β
  parked : List β

/-- What becomes of the places of things. -/
inductive Shift where
  | stay
  /-- There is a new one at the end, and the parked ones are lost. -/
  | create
  | remove (index : Nat)
  | reorder (source target : Nat)
  /-- The last one is parked. -/
  | park
  /-- The one that was parked last is put at the end. -/
  | bringBack
deriving DecidableEq

namespace Rows

variable {β γ : Type}

/-- All things in one row, the parked ones behind the others. -/
def row (r : Rows β) : List β := r.present ++ r.parked

/-- The last thing is parked. Only so many are kept. -/
def park (limit : Nat) (r : Rows β) : Rows β :=
  match r.present.getLast? with
  | none => r
  | some b => ⟨r.present.dropLast, (b :: r.parked).take limit⟩

/-- The thing that was parked last is put at the end. It may be touched. -/
def bringBack (touch : β → β) (r : Rows β) : Rows β :=
  match r.parked with
  | [] => r
  | b :: bs => ⟨r.present ++ [touch b], bs⟩

/-- The rows after a shift, which puts `new` at the end if it creates one. -/
def shift (limit : Nat) (touch : β → β) (new : β) (r : Rows β) : Shift → Rows β
  | .stay => r
  | .create => ⟨r.present ++ [new], []⟩
  | .remove index => { r with present := r.present.eraseIdx index }
  | .reorder source target => { r with present := moved source target r.present }
  | .park => r.park limit
  | .bringBack => r.bringBack touch

theorem park_concat {limit : Nat} {bs : List β} {b : β} {parked : List β} :
    park limit ⟨bs ++ [b], parked⟩ = ⟨bs, (b :: parked).take limit⟩ := by
  simp [park]

theorem park_nil {r : Rows β} (limit : Nat) (h : r.present = []) : r.park limit = r := by
  rw [park, h]
  rfl

theorem bringBack_nil {r : Rows β} (touch : β → β) (h : r.parked = []) : r.bringBack touch = r := by
  rw [bringBack, h]

theorem bringBack_cons {r : Rows β} {b : β} {bs : List β} {touch : β → β}
    (h : r.parked = b :: bs) (hb : touch b = b) :
    r.bringBack touch = ⟨r.present ++ [b], bs⟩ := by
  rw [bringBack, h]
  dsimp only
  rw [hb]

/-- Of a list that was parked from its end, one more thing is parked. Those that
    are kept are the first behind the line. -/
theorem park_take (limit k : Nat) (bs : List β) :
    park limit ⟨bs.take (bs.length - k), (bs.drop (bs.length - k)).take limit⟩ =
      ⟨bs.take (bs.length - (k + 1)), (bs.drop (bs.length - (k + 1))).take limit⟩ := by
  by_cases hk : k < bs.length
  · have hlast : bs.length - (k + 1) < bs.length := by omega
    have hline : bs.length - k = bs.length - (k + 1) + 1 := by omega
    rw [hline, ← List.take_append_getElem hlast, park_concat,
      List.drop_eq_getElem_cons hlast]
    -- What the limit cuts off a shorter list it cuts off the longer one.
    cases limit with
    | zero => rfl
    | succ limit =>
        rw [List.take_succ_cons, List.take_succ_cons, List.take_take,
          Nat.min_eq_left (Nat.le_succ limit)]
  · have hnone : bs.length - k = 0 := by omega
    have hnone' : bs.length - (k + 1) = 0 := by omega
    rw [hnone, hnone']
    exact park_nil limit rfl

/-- Of a row of parked things one more is brought back. -/
theorem bringBack_take {touch : β → β} {bs : List β} (h : ∀ b ∈ bs, touch b = b)
    (present : List β) (k : Nat) :
    bringBack touch ⟨present ++ bs.take k, bs.drop k⟩ =
      ⟨present ++ bs.take (k + 1), bs.drop (k + 1)⟩ := by
  by_cases hk : k < bs.length
  · rw [bringBack_cons (List.drop_eq_getElem_cons hk) (h _ (List.getElem_mem hk)),
      ← List.take_append_getElem hk, ← List.append_assoc]
  · -- Past the end there is nothing more to bring back.
    have hlong : bs.length ≤ k := by omega
    rw [List.take_of_length_le hlong, List.take_of_length_le (Nat.le_succ_of_le hlong),
      List.drop_of_length_le hlong, List.drop_of_length_le (Nat.le_succ_of_le hlong)]
    exact bringBack_nil touch rfl

theorem present_park (limit : Nat) (r : Rows β) :
    (r.park limit).present = r.present.dropLast := by
  obtain ⟨present, parked⟩ := r
  rcases List.eq_nil_or_concat' present with rfl | ⟨bs, b, rfl⟩
  · rfl
  · rw [park_concat, List.dropLast_concat]

/-- Parking the last thing leaves the row, or shortens it at the far end. -/
theorem row_park (limit : Nat) (r : Rows β) : (r.park limit).row <+: r.row := by
  obtain ⟨present, parked⟩ := r
  rcases List.eq_nil_or_concat' present with rfl | ⟨bs, b, rfl⟩
  · exact List.prefix_refl _
  · rw [park_concat, row, row, List.append_assoc, List.prefix_append_right_inj]
    exact List.take_prefix limit (b :: parked)

/-- Bringing back what comes back as it was leaves the row. -/
theorem row_bringBack {touch : β → β} {r : Rows β} (h : ∀ b ∈ r.parked, touch b = b) :
    (r.bringBack touch).row = r.row := by
  obtain ⟨present, parked⟩ := r
  cases parked with
  | nil => rfl
  | cons b bs =>
      change (present ++ [touch b]) ++ bs = present ++ b :: bs
      rw [h b List.mem_cons_self, List.append_assoc, List.singleton_append]

/-- A shift leaves the row in its order and adds at its end at most, or it is a
    reorder and only changes the order. -/
theorem shift_row (limit : Nat) (new : β) (r : Rows β) (sh : Shift) :
    (r.shift limit id new sh).row.Sublist (r.row ++ [new]) ∨
      (∃ source target, sh = .reorder source target) ∧
        (r.shift limit id new sh).row.Perm r.row := by
  -- Only creating adds something, and only a reorder changes the order.
  cases sh with
  | stay => exact Or.inl (List.sublist_append_left r.row [new])
  | create =>
      refine Or.inl ?_
      change (r.present ++ [new] ++ []).Sublist _
      rw [List.append_nil, row]
      exact (List.sublist_append_left r.present r.parked).append_right [new]
  | remove index =>
      refine Or.inl (List.Sublist.trans ?_ (List.sublist_append_left r.row [new]))
      exact (List.eraseIdx_sublist r.present index).append_right r.parked
  | reorder source target =>
      exact Or.inr ⟨⟨source, target, rfl⟩, (moved_perm source target r.present).append_right _⟩
  | park =>
      exact Or.inl ((row_park limit r).sublist.trans (List.sublist_append_left r.row [new]))
  | bringBack =>
      refine Or.inl ?_
      have hrow : (r.bringBack id).row = r.row := row_bringBack fun b _ => rfl
      change (r.bringBack id).row.Sublist _
      rw [hrow]
      exact List.sublist_append_left r.row [new]

/-- Rows of as many things have as many things after a shift. -/
theorem length_shift {limit : Nat} {touch : β → β} {touch' : γ → γ} {new : β} {new' : γ}
    {r : Rows β} {r' : Rows γ} (hpresent : r.present.length = r'.present.length)
    (hparked : r.parked.length = r'.parked.length) (sh : Shift) :
    (r.shift limit touch new sh).present.length =
        (r'.shift limit touch' new' sh).present.length ∧
      (r.shift limit touch new sh).parked.length =
        (r'.shift limit touch' new' sh).parked.length := by
  obtain ⟨present, parked⟩ := r
  obtain ⟨present', parked'⟩ := r'
  simp only at hpresent hparked
  cases sh with
  | stay => exact ⟨hpresent, hparked⟩
  | create => simp [shift, hpresent]
  | remove index => simp [shift, List.length_eraseIdx, hpresent, hparked]
  | reorder source target => simp [shift, length_moved, hpresent, hparked]
  | park =>
      rcases List.eq_nil_or_concat' present with rfl | ⟨bs, b, rfl⟩ <;>
        rcases List.eq_nil_or_concat' present' with rfl | ⟨bs', b', rfl⟩
      -- Either both rows have a last thing or neither has.
      · exact ⟨rfl, hparked⟩
      · simp at hpresent
      · simp at hpresent
      · simp_all [shift, park_concat]
  | bringBack =>
      cases parked <;> cases parked'
      · exact ⟨hpresent, rfl⟩
      · simp at hparked
      · simp at hparked
      · simp_all [shift, bringBack]

end Rows

/-- The pairs of a store and the parked ones. -/
def Store.rows {α : Type} (s : Store α) : Rows (Pair α) := ⟨s.pairs, s.parked.pairs⟩

/-- What an edit does to the places of pairs, as its report tells. Undoing tells
    only whether there was anything, which may have been a pending start. -/
def Edit.shift {α : Type} (s : Store α) : Edit α → Outcome α → Shift
  | .add .., _ => .create
  | .place _, .placed (.pair _) => .create
  | .delete index, _ => .remove index
  | .reorder source target, _ => .reorder source target
  | .undoPair, .undone true => if s.pending.isSome then .stay else .park
  | .redoPair, .place (some _) => .bringBack
  | _, _ => .stay

/-- An event that creates pairs, takes them away, moves them or brings them
    back, and leaves each of them as it is. -/
def Event.Arranges {α : Type} : Event α → Prop
  | .edit (.add ..) | .edit (.place _) | .edit .cancel | .edit (.delete _) => True
  | .edit (.reorder ..) | .edit .undoPair | .edit .redoPair => True
  | .edit _ => False
  | .choose _ => True

namespace Store

variable {α : Type}

theorem delete_eq_ok {index : Nat} {s t : Store α} {p : Pair α} (h : delete index s = .ok p t) :
    t = { s with pairs := s.pairs.eraseIdx index } := by
  rcases InPlace.bind_eq_ok.mp (show (InPlace.demand (s.pair index) >>= _) s = _ from h) with
    ⟨q, u, hq, h⟩
  rcases InPlace.demand_eq_ok.mp hq with ⟨-, rfl⟩
  cases h
  rfl

theorem reorder_eq_ok {source target : Nat} {s t : Store α} {b : Unit}
    (h : reorder source target s = .ok b t) :
    (source < s.pairs.length ∧ target < s.pairs.length) ∧
      t = { s with pairs := moved source target s.pairs } := by
  rcases InPlace.bind_eq_ok.mp (show (InPlace.demand (s.pair source) >>= _) s = _ from h) with
    ⟨p, u, hp, h₁⟩
  -- Both places are asked for before anything is moved.
  rcases InPlace.demand_eq_ok.mp hp with ⟨hsource, rfl⟩
  rcases InPlace.bind_eq_ok.mp h₁ with ⟨q, u', hq, h₂⟩
  rcases InPlace.demand_eq_ok.mp hq with ⟨htarget, rfl⟩
  cases h₂
  rcases List.getElem?_eq_some_iff.mp (pair_eq_ok hsource) with ⟨hlt, rfl⟩
  rcases List.getElem?_eq_some_iff.mp (pair_eq_ok htarget) with ⟨hlt', -⟩
  exact ⟨⟨hlt, hlt'⟩, by rw [moved_of_lt hlt hlt']⟩

theorem reorder_of_lt {source target : Nat} {s : Store α} (hsource : source < s.pairs.length)
    (htarget : target < s.pairs.length) :
    reorder source target s = .ok () { s with pairs := moved source target s.pairs } := by
  -- Both places have a pair, so neither demand refuses.
  have hpair : ∀ i (hi : i < s.pairs.length), s.pair i = .ok s.pairs[i] := by
    intro i hi
    rw [pair, List.getElem?_eq_getElem hi]
  change EStateM.bind (InPlace.demand (s.pair source)) _ s = _
  rw [hpair source hsource]
  change EStateM.bind (InPlace.demand (s.pair target)) _ s = _
  rw [hpair target htarget, moved_of_lt hsource htarget]
  rfl

/-- A store with its pairs in other rows. -/
def withRows (s : Store α) (r : Rows (Pair α)) : Store α :=
  { s with pairs := r.present, parked := { s.parked with pairs := r.parked } }

/-- Undoing the creation of a pair parks the last one, if no start is
    pending. -/
theorem undoPair_rows {s : Store α} (h : s.pending = none) :
    undoPair s = .ok (!s.pairs.isEmpty) (s.withRows (s.rows.park s.parked.limit)) := by
  obtain ⟨pairs, parked, pending, grid, engine⟩ := s
  subst h
  rw [undoPair_eq]
  -- The list is taken apart at its end, where it is undone.
  rcases List.eq_nil_or_concat' pairs with rfl | ⟨ps, p, rfl⟩
  · rfl
  · simp [withRows, rows, Rows.park, Parked.push]

/-- Bringing a parked pair back computes its play time. -/
theorem redoPair_rows [Scalar α] (s : Store α) :
    redoPair s = .ok (if s.parked.pairs = [] then none else some s.pairs.length)
      (s.withRows (s.rows.bringBack (timed s.engine))) := by
  obtain ⟨pairs, ⟨parked, limit⟩, pending, grid, engine⟩ := s
  rw [redoPair_eq]
  cases parked <;> rfl

end Store

instance {α : Type} [Scalar α] : Nonempty (Pair α) :=
  ⟨.ofMap ⟨⟨0.0, 1.0⟩, [], ⟨1.0, 1.0⟩⟩ .full⟩

namespace Project

variable {α : Type}

/-- An edit of the store, reported in one way or another. -/
theorem reported_eq_ok {β : Type} {f : InPlace (EditError α) (Store α) β} {k : β → Outcome α}
    {p q : Project α} {o : Outcome α} (h : (onStore f >>= fun b => pure (k b)) p = .ok o q) :
    ∃ b t, f p.store = .ok b t ∧ o = k b ∧ q = { p with store := t } := by
  rcases InPlace.bind_eq_ok.mp h with ⟨b, u, hu, hq⟩
  cases hq
  unfold onStore at hu
  -- What is reported does not change the store, so it is that of the edit.
  cases hf : f p.store with
  | ok b' t => rw [hf] at hu; cases hu; exact ⟨b, t, rfl, rfl, rfl⟩
  | error cause t => rw [hf] at hu; cases hu

variable [Scalar α]

/-- The shift of an event. What is refused shifts nothing. -/
def shift (p : Project α) : Event α → Shift
  | .choose _ => .stay
  | .edit e =>
    match edit e p with
    | .ok o _ => e.shift p.store o
    | .error _ _ => .stay

/-- The pairs of a store go where the shift of an edit takes them, if they do
    when it is done. -/
theorem after_rows_of_edit {β : Type} {f : InPlace (EditError α) (Store α) β}
    (k : β → Outcome α) {p : Project α} {e : Edit α}
    (hedit : edit e p = (onStore f >>= fun b => pure (k b)) p)
    (hok : ∀ b t, f p.store = .ok b t → ∃ new, t.rows =
      p.store.rows.shift p.store.parked.limit (Store.timed p.store.engine) new
        (e.shift p.store (k b))) :
    ∃ new, (p.after (.edit e)).store.rows =
      p.store.rows.shift p.store.parked.limit (Store.timed p.store.engine) new
        (p.shift (.edit e)) := by
  change ∃ new, (InPlace.left (edit e p)).store.rows = p.store.rows.shift _ _ new
    (match edit e p with
      | .ok o _ => e.shift p.store o
      | .error _ _ => .stay)
  cases hr : edit e p with
  | ok o q =>
      rw [hedit] at hr
      rcases reported_eq_ok hr with ⟨b, t, hf, rfl, rfl⟩
      exact hok b t hf
  | error cause q =>
      -- What is new does not matter where nothing shifts.
      rw [edit_atomic e hr]
      exact ⟨Classical.arbitrary _, rfl⟩

/-- The pairs of a store go where the shift of an event takes them. -/
theorem after_rows (p : Project α) {e : Event α} (he : e.Arranges) :
    ∃ new, (p.after e).store.rows =
      p.store.rows.shift p.store.parked.limit (Store.timed p.store.engine) new (p.shift e) := by
  cases e with
  | choose settings => exact ⟨Classical.arbitrary _, rfl⟩
  | edit e =>
    cases e with
    | add start stop speed =>
        refine after_rows_of_edit (fun i => .place (some i)) rfl fun index t h => ?_
        rcases Store.add_eq_ok h with ⟨q, -, rfl⟩
        exact ⟨_, rfl⟩
    | place time =>
        refine after_rows_of_edit .placed rfl fun marker t h => ?_
        rw [Store.place_eq] at h
        split at h
        · cases h
          exact ⟨Classical.arbitrary _, rfl⟩
        · split at h
          · cases h
          · split at h
            · cases h
            · case _ index u hadd =>
                cases h
                rcases Store.add_eq_ok hadd with ⟨q, -, rfl⟩
                exact ⟨_, rfl⟩
    | cancel =>
        refine after_rows_of_edit .cancelled rfl fun time t h => ?_
        cases h
        exact ⟨Classical.arbitrary _, rfl⟩
    | delete index =>
        refine after_rows_of_edit .removed rfl fun q t h => ?_
        rw [Store.delete_eq_ok h]
        exact ⟨q, rfl⟩
    | reorder source target =>
        refine after_rows_of_edit (fun _ => .done) rfl fun b t h => ?_
        rw [(Store.reorder_eq_ok h).2]
        exact ⟨Classical.arbitrary _, rfl⟩
    | undoPair =>
        refine after_rows_of_edit .undone rfl fun any t h => ?_
        refine ⟨Classical.arbitrary _, ?_⟩
        cases hpending : p.store.pending with
        | some start =>
            rw [Store.undoPair_eq, hpending] at h
            cases h
            simp [Edit.shift, hpending, Rows.shift, Store.rows]
        | none =>
            rw [Store.undoPair_rows hpending] at h
            cases h
            -- Where there is no pair, parking the last one changes nothing.
            cases hpairs : p.store.pairs with
            | nil => simp [Edit.shift, Rows.shift, Rows.park, Store.rows, Store.withRows, hpairs]
            | cons q qs => simp [Edit.shift, hpending, Rows.shift, Store.rows, Store.withRows]
    | redoPair =>
        refine after_rows_of_edit .place rfl fun index t h => ?_
        refine ⟨Classical.arbitrary _, ?_⟩
        rw [Store.redoPair_rows] at h
        cases h
        cases hparked : p.store.parked.pairs with
        | nil =>
            simp [Edit.shift, Rows.shift, Rows.bringBack, Store.rows, Store.withRows, hparked]
        | cons q qs => simp [Edit.shift, Rows.shift, Store.rows, Store.withRows, hparked]
    | _ => exact he.elim

/-- What undoing the creation of a pair does in a session, if no start is
    pending. -/
theorem edit_undoPair {p : Project α} (h : p.store.pending = none) :
    edit .undoPair p = .ok (.undone (!p.store.pairs.isEmpty))
      { p with store := p.store.withRows (p.store.rows.park p.store.parked.limit) } := by
  have hedit : edit .undoPair p =
      EStateM.bind (onStore Store.undoPair) (fun any => pure (.undone any)) p := rfl
  rw [hedit, EStateM.bind, onStore, Store.undoPair_rows h]
  rfl

/-- What bringing a parked pair back does in a session. -/
theorem edit_redoPair (p : Project α) :
    edit .redoPair p =
      .ok (.place (if p.store.parked.pairs = [] then none else some p.store.pairs.length))
        { p with
          store := p.store.withRows (p.store.rows.bringBack (Store.timed p.store.engine)) } := by
  have hedit : edit .redoPair p =
      EStateM.bind (onStore Store.redoPair) (fun index => pure (.place index)) p := rfl
  rw [hedit, EStateM.bind, onStore, Store.redoPair_rows]
  rfl

theorem after_undoPair {p : Project α} (h : p.store.pending = none) :
    p.after (.edit .undoPair) =
      { p with store := p.store.withRows (p.store.rows.park p.store.parked.limit) } := by
  change InPlace.left (edit .undoPair p) = _
  rw [edit_undoPair h]
  rfl

theorem after_redoPair (p : Project α) :
    p.after (.edit .redoPair) =
      { p with
        store := p.store.withRows (p.store.rows.bringBack (Store.timed p.store.engine)) } := by
  change InPlace.left (edit .redoPair p) = _
  rw [edit_redoPair p]
  rfl

/-- What has a shift was done. -/
theorem shift_edit {p : Project α} {e : Event α} (h : p.shift e ≠ .stay) :
    ∃ f o q, e = .edit f ∧ edit f p = .ok o q ∧ p.shift e = f.shift p.store o := by
  cases e with
  | choose settings => exact absurd rfl h
  | edit f =>
      -- A refused edit has no shift, which leaves those that were done.
      cases hr : edit f p with
      | ok o q => exact ⟨f, o, q, rfl, hr, by simp only [shift, hr]⟩
      | error cause q => simp [shift, hr] at h

/-- Only a reorder has the shift of one, and it is one between places that have
    pairs. -/
theorem eq_reorder_of_shift {p : Project α} {e : Event α} {source target : Nat}
    (h : p.shift e = .reorder source target) :
    e = .edit (.reorder source target) ∧
      source < p.store.pairs.length ∧ target < p.store.pairs.length := by
  rcases shift_edit (p := p) (e := e) (by simp [h]) with ⟨f, o, q, rfl, hr, hshift⟩
  rw [h] at hshift
  unfold Edit.shift at hshift
  -- Only a reorder that was done has the shift of one.
  split at hshift
  case h_4 =>
      cases hshift
      rcases reported_eq_ok (k := fun _ => .done) hr with ⟨b, t, ht, -, -⟩
      exact ⟨rfl, (Store.reorder_eq_ok ht).1⟩
  case h_5 => split at hshift <;> cases hshift
  all_goals cases hshift

/-- A reorder between places that have pairs is done. -/
theorem edit_reorder {p : Project α} {source target : Nat}
    (hsource : source < p.store.pairs.length) (htarget : target < p.store.pairs.length) :
    edit (.reorder source target) p =
      .ok .done { p with store.pairs := moved source target p.store.pairs } := by
  have hedit : edit (.reorder source target) p =
      EStateM.bind (onStore (Store.reorder source target)) (fun _ => pure .done) p := rfl
  rw [hedit, EStateM.bind, onStore, Store.reorder_of_lt hsource htarget]
  rfl

end Project

/-- A session in which every pair bears a mark. -/
structure Marked (α : Type) where
  project : Project α
  marks : Rows Nat
  /-- The mark of the next pair, which grows with every event. -/
  time : Nat

namespace Marked

variable {α : Type}

/-- The pairs of a session are marked with their places, and the parked ones
    with the numbers behind. -/
def start (p : Project α) : Marked α where
  project := p
  marks := ⟨List.range p.store.pairs.length,
    List.range' p.store.pairs.length p.store.parked.pairs.length⟩
  time := p.store.pairs.length + p.store.parked.pairs.length

/-- There is one mark for each pair. -/
structure Even (m : Marked α) : Prop where
  present : m.marks.present.length = m.project.store.pairs.length
  parked : m.marks.parked.length = m.project.store.parked.pairs.length

theorem start_even (p : Project α) : (start p).Even :=
  ⟨List.length_range, List.length_range'⟩

/-- All marks are different, and were given before the present time. -/
structure Fresh (m : Marked α) : Prop where
  nodup : m.marks.row.Nodup
  lt_time : ∀ c ∈ m.marks.row, c < m.time

theorem start_row (p : Project α) : (start p).marks.row =
    List.range (p.store.pairs.length + p.store.parked.pairs.length) := by
  rw [List.range_eq_range', ← List.range'_append]
  simp [start, Rows.row, List.range_eq_range']

theorem start_fresh (p : Project α) : (start p).Fresh := by
  refine ⟨?_, fun c hc => ?_⟩
  · rw [start_row]
    exact List.nodup_range
  · rw [start_row, List.mem_range] at hc
    exact hc

variable [Scalar α]

/-- The session after an event. The marks go where the pairs go, and a pair
    that is created is marked with the time. -/
def after (m : Marked α) (e : Event α) : Marked α where
  project := m.project.after e
  marks := m.marks.shift m.project.store.parked.limit id m.time (m.project.shift e)
  time := m.time + 1

/-- The session after a run of events. -/
def run (m : Marked α) (es : List (Event α)) : Marked α :=
  es.foldl after m

theorem run_concat (m : Marked α) (es : List (Event α)) (e : Event α) :
    m.run (es ++ [e]) = (m.run es).after e :=
  List.foldl_concat ..

/-- Marks do not interfere with the session. -/
theorem run_project (m : Marked α) (es : List (Event α)) :
    (m.run es).project = m.project.run es := by
  induction es generalizing m with
  | nil => rfl
  | cons e es ih => exact ih (m.after e)

theorem Even.after {m : Marked α} (hm : m.Even) {e : Event α} (he : e.Arranges) :
    (m.after e).Even := by
  rcases m.project.after_rows he with ⟨new, hrows⟩
  constructor
  · change _ = (m.project.after e).store.rows.present.length
    rw [hrows]
    exact (Rows.length_shift hm.present hm.parked (m.project.shift e)).1
  · change _ = (m.project.after e).store.rows.parked.length
    rw [hrows]
    exact (Rows.length_shift hm.present hm.parked (m.project.shift e)).2

theorem Even.run {m : Marked α} (hm : m.Even) {es : List (Event α)}
    (hes : ∀ e ∈ es, e.Arranges) : (m.run es).Even := by
  induction es generalizing m with
  | nil => exact hm
  | cons e es ih =>
      rcases List.forall_mem_cons.mp hes with ⟨he, hes⟩
      exact ih (hm.after he) hes

theorem Fresh.after {m : Marked α} (hm : m.Fresh) (e : Event α) : (m.after e).Fresh := by
  -- The time of an event is later than all marks, so it is a mark of its own.
  have hnew : (m.marks.row ++ [m.time]).Nodup := by
    rw [List.nodup_append]
    refine ⟨hm.nodup, List.pairwise_singleton _ _, fun c hc d hd => ?_⟩
    have hlt := hm.lt_time c hc
    rw [List.mem_singleton] at hd
    omega
  have hlt : ∀ c ∈ m.marks.row ++ [m.time], c < m.time + 1 := by
    intro c hc
    rcases List.mem_append.mp hc with hc | hc
    · exact Nat.lt_succ_of_lt (hm.lt_time c hc)
    · rw [List.mem_singleton.mp hc]
      exact Nat.lt_succ_self _
  rcases Rows.shift_row m.project.store.parked.limit m.time m.marks (m.project.shift e) with
    hsub | ⟨-, hperm⟩
  · exact ⟨hsub.nodup hnew, fun c hc => hlt c (hsub.subset hc)⟩
  · exact ⟨hperm.nodup_iff.mpr hm.nodup,
      fun c hc => hlt c (List.mem_append_left _ (hperm.subset hc))⟩

theorem Fresh.run {m : Marked α} (hm : m.Fresh) (es : List (Event α)) : (m.run es).Fresh := by
  induction es generalizing m with
  | nil => exact hm
  | cons e es ih => exact ih (hm.after e)

end Marked

end Retime
