import Retime.Proofs.PairEdits

/-!
# The Timeline of a Pair

Undoing and redoing moves of the markers walks along one timeline.

A timeline is the obvious account of moves that can be taken back: a row of
snapshots with a cursor. A move drops what is behind the cursor and puts a new
snapshot there, and going back and forth moves the cursor. A pair keeps no
snapshots. It keeps a record of each move, with one side, two times and the
points that were dropped, and works its way from one map to the next.

The two agree, but how far depends on what else was done to the pair. The ends
of its map are those of the snapshot in any case. The times of the points
between are too, unless the map was replaced, and the whole map is unless its
speed was set. These are three views of a map, and the proof is the same for
all of them. It needs to know that what a view shows of a map says what it
shows of the map after a boundary was moved, and that putting points back
shows again what was there. Those are the two halves of `Faithful`.

The invariant is that the records lead from each snapshot to the next. Of a
record that says `Moved`: some sound map looks like the one snapshot, and
moving its boundary looks like the other. That map is not the one the pair had
then, nor the one it has now, and any of them will do, as only the view counts.

## Main definitions

* `Timeline`: Snapshots with a cursor on one of them.
* `Timeline.follow`: What an edit of a pair does to the timeline.
* `Watched`, `watch`: A run of edits with the timeline kept beside the pair.
* `Faithful`: A view of maps that boundary moves respect.
* `Aligned`: A pair and a timeline agree in a view.

## Theorems

* `faithful_ends`, `faithful_outline`, `faithful_id`: The three views.
* `Aligned.edit`: An edit that a view does not show keeps pair and timeline
  aligned.
* `Aligned.redo_accepted`, `Aligned.undo_accepted`: Going forth is not refused,
  nor is going back where the times of the points are those of the snapshot.
* `moves_follow_timeline`: A run of edits follows its timeline.
-/

namespace Retime

/-- Snapshots in their order, with a cursor on one of them. -/
structure Timeline (β : Type) where
  /-- The snapshots before the cursor, the latest first. -/
  before : List β
  /-- The snapshot at the cursor. -/
  now : β
  /-- The snapshots after the cursor, the earliest first. -/
  after : List β

namespace Timeline

variable {β : Type}

/-- The timeline of one snapshot. -/
def start (b : β) : Timeline β := ⟨[], b, []⟩

/-- Discards the snapshots after the cursor and appends one. -/
def append (b : β) (t : Timeline β) : Timeline β := ⟨t.now :: t.before, b, []⟩

/-- The cursor one snapshot back. -/
def back (t : Timeline β) : Timeline β :=
  match t.before with
  | [] => t
  | b :: bs => ⟨bs, b, t.now :: t.after⟩

/-- The cursor one snapshot forth. -/
def forth (t : Timeline β) : Timeline β :=
  match t.after with
  | [] => t
  | b :: bs => ⟨t.now :: t.before, b, bs⟩

variable {α : Type}

/-- What an edit of a pair does to its timeline. A move that was accepted
    appends the map that it made. Only an edit that reports a side has gone
    back or forth. -/
def follow (t : Timeline (SpeedMap α)) :
    PairEdit α → EStateM.Result (MarkerError α) (Pair α) (Option Side) → Timeline (SpeedMap α)
  | .move _ _, .ok _ p => t.append p.map
  | .undo, .ok (some _) _ => t.back
  | .redo, .ok (some _) _ => t.forth
  | _, _ => t

end Timeline

/-- A pair with the timeline that is kept beside it. -/
structure Watched (α : Type) where
  pair : Pair α
  timeline : Timeline (SpeedMap α)

namespace Watched

variable {α : Type} [Scalar α]

/-- The pair after an edit, done or refused, and the timeline that follows. -/
def step (w : Watched α) (e : PairEdit α) : Watched α where
  pair := InPlace.left (Pair.edit e w.pair)
  timeline := w.timeline.follow e (Pair.edit e w.pair)

end Watched

/-- A run of edits of a pair, watched from its map on. -/
def watch {α : Type} [Scalar α] (p : Pair α) (es : List (PairEdit α)) : Watched α :=
  es.foldl Watched.step ⟨p, .start p.map⟩

namespace SpeedMap

variable {α β : Type}

/-- The times of both ends of a map. -/
def ends (m : SpeedMap α) : α × α := (m.start, m.stop)

theorem ends_inj {m n : SpeedMap α} (h : m.ends = n.ends) :
    m.start = n.start ∧ m.stop = n.stop := by
  rw [ends, ends, Prod.mk.injEq] at h
  exact h

theorem boundary_eq_of_ends {m n : SpeedMap α} (h : m.ends = n.ends) (side : Side) :
    m.boundary side = n.boundary side := by
  rcases ends_inj h with ⟨hstart, hstop⟩
  cases side with
  | start => exact hstart
  | stop => exact hstop

variable [Scalar α]

theorem admits_eq_of_ends {m n : SpeedMap α} (h : m.ends = n.ends) (side : Side) (time : α) :
    m.admits side time = n.admits side time := by
  rcases ends_inj h with ⟨hstart, hstop⟩
  cases side with
  | start => rw [admits, admits, hstop]
  | stop => rw [admits, admits, hstart]

/-- A view of maps that boundary moves respect: it shows the ends, what it
    shows of a map says what it shows after a move, and putting back what a
    move dropped shows again what was there. -/
structure Faithful (v : SpeedMap α → β) : Prop where
  ends : ∀ {m n}, v m = v n → m.ends = n.ends
  cut : ∀ {m n} side time, v m = v n → v (m.cut side time).1 = v (n.cut side time).1
  back : ∀ {m n} side time, m.Sound → v n = v (m.cut side time).1 →
    v (n.extended side (m.boundary side) (m.cut side time).2) = v m

theorem faithful_ends : Faithful (ends (α := α)) where
  ends h := h
  cut {m n} side time h := by
    rcases ends_inj h with ⟨hstart, hstop⟩
    cases side with
    | start => exact congrArg (Prod.mk time) hstop
    | stop => exact congrArg (fun start => (start, time)) hstart
  back {m n} side time _ h := by
    cases side with
    | start => exact congrArg (fun e => (m.start, e.2)) h
    | stop => exact congrArg (fun e => (e.1, m.stop)) h

variable [OrderedScalar α]

theorem faithful_outline : Faithful (outline (α := α)) where
  ends {m n} h := by
    rcases outline_inj h with ⟨hstart, -, hstop⟩
    rw [ends, ends, hstart, hstop]
  cut side time h := (cut_outline h side time).1
  back {m n} side time hm h := by
    rw [extended_outline h, extended_cut hm]

theorem faithful_id : Faithful (id : SpeedMap α → SpeedMap α) where
  ends h := congrArg SpeedMap.ends h
  cut side time h := congrArg (fun m => (m.cut side time).1) h
  back {m n} side time hm h := by
    change n = (m.cut side time).1 at h
    rw [h, extended_cut hm]

end SpeedMap

section Records

variable {α β : Type}

/-- Records that lead from a snapshot through a row of others, one to each. -/
inductive Trail (R : MoveRecord α → β → β → Prop) : β → List (MoveRecord α) → List β → Prop
  | nil (b : β) : Trail R b [] []
  | cons {r rs b c cs} : R r b c → Trail R c rs cs → Trail R b (r :: rs) (c :: cs)

theorem Trail.length_eq {R : MoveRecord α → β → β → Prop} {b rs bs} (h : Trail R b rs bs) :
    rs.length = bs.length := by
  induction h with
  | nil => rfl
  | cons _ _ ih => rw [List.length_cons, List.length_cons, ih]

/-- A trail of one record or more leads through a snapshot. -/
theorem Trail.of_cons {R : MoveRecord α → β → β → Prop} {b r rs bs}
    (h : Trail R b (r :: rs) bs) : ∃ c cs, bs = c :: cs ∧ R r b c ∧ Trail R c rs cs := by
  cases h with
  | cons hr hrs => exact ⟨_, _, rfl, hr, hrs⟩

variable [Scalar α]

/-- A record of a move that leads from one snapshot to another. -/
def Moved (v : SpeedMap α → β) (r : MoveRecord α) (source target : β) : Prop :=
  ∃ m : SpeedMap α, m.Sound ∧ m.admits r.side r.target = true ∧
    r.source = m.boundary r.side ∧ r.dropped = (m.cut r.side r.target).2 ∧
    v m = source ∧ v (m.cut r.side r.target).1 = target

/-- A pair and a timeline agree in a view: on what is now, and in that the
    records lead to what was before and to what is after. -/
structure Aligned (v : SpeedMap α → β) (p : Pair α) (t : Timeline (SpeedMap α)) : Prop where
  sound : p.map.Sound
  now : v p.map = v t.now
  past : Trail (fun r b a => Moved v r a b) (v t.now) p.moves.undo (t.before.map v)
  future : Trail (Moved v) (v t.now) p.moves.redo (t.after.map v)

end Records

namespace Aligned

open SpeedMap

variable {α β : Type} [Scalar α] {v : SpeedMap α → β} {p : Pair α} {t : Timeline (SpeedMap α)}

/-- The start of a timeline: there is nothing before and nothing after. -/
theorem start {p : Pair α} (hp : p.map.Sound) (hnew : p.moves = {}) :
    Aligned v p (.start p.map) := by
  refine ⟨hp, rfl, ?_, ?_⟩
  · rw [hnew]
    exact Trail.nil _
  · rw [hnew]
    exact Trail.nil _

/-- Another map that looks the same. -/
theorem remap (ha : Aligned v p t) {m : SpeedMap α} (hm : m.Sound) (h : v m = v p.map) :
    Aligned v { p with map := m } t :=
  ⟨hm, h.trans ha.now, ha.past, ha.future⟩

/-- Going forth is never refused. -/
theorem redo_accepted (hv : Faithful v) (ha : Aligned v p t) {cause : MarkerError α} {q : Pair α} :
    p.makeAgain ≠ .error cause q := by
  intro h
  cases hredo : p.moves.redo with
  | nil => rw [Pair.makeAgain_nil hredo] at h; cases h
  | cons r rs =>
      have hfuture := ha.future
      rw [hredo] at hfuture
      rcases hfuture.of_cons with ⟨_, _, -, ⟨m, -, hadmits, -, -, hn, -⟩, -⟩
      -- Whether a boundary may be moved depends on the ends, which are shown.
      have hends := hv.ends (ha.now.trans hn.symm)
      have hok : p.map.moveBoundary r.side r.target = .ok (p.map.cut r.side r.target) :=
        moveBoundary_eq_ok_iff.mpr ⟨(admits_eq_of_ends hends _ _).trans hadmits, rfl⟩
      rw [Pair.makeAgain_eq hredo, hok] at h
      cases h

variable [OrderedScalar α]

/-- A move discards what is after the cursor, and is the record that leads to
    what it made. -/
theorem move (ha : Aligned v p t) {q : Pair α} {side : Side} {time : α}
    (h : p.move side time = .ok q) : Aligned v q (t.append q.map) := by
  rcases Pair.move_eq_ok h with ⟨hadmits, rfl⟩
  refine ⟨ha.sound.cut hadmits, rfl, Trail.cons ?_ ha.past, Trail.nil _⟩
  exact ⟨p.map, ha.sound, hadmits, rfl, rfl, ha.now, rfl⟩

/-- Taking a move back leads to the snapshot before the cursor. -/
theorem takeBack (hv : Faithful v) (ha : Aligned v p t) {q : Pair α} {side : Option Side}
    (h : p.takeBack = .ok side q) : Aligned v q (t.follow .undo (.ok side q)) := by
  cases hundo : p.moves.undo with
  | nil =>
      rw [Pair.takeBack_nil hundo] at h
      cases h
      exact ha
  | cons r rs =>
      have hpast := ha.past
      rw [hundo] at hpast
      rcases t with ⟨before, now, after⟩
      rcases hpast.of_cons with ⟨c, cs, hbefore, ⟨m, hm, hadmits, hsource, hdropped, hc, hn⟩, hpast⟩
      rcases List.map_eq_cons_iff.mp hbefore with ⟨b, bs, rfl, rfl, rfl⟩
      rw [Pair.takeBack_eq hundo] at h
      cases hmap : p.map.restoreBoundary r.side r.source r.dropped with
      | error cause => rw [hmap] at h; cases h
      | ok map =>
          rw [hmap] at h
          cases h
          rcases restoreBoundary_eq_ok_iff.mp hmap with ⟨hflaw, hextended⟩
          have hsound := (flaw?_eq_none_iff _).mp hflaw
          -- The record was made of another map, which looks the same.
          have hback : v map = v b := by
            rw [← hextended, hsource, hdropped, ← hc]
            exact hv.back r.side r.target hm (ha.now.trans hn.symm)
          refine ⟨hextended ▸ hsound, hback, hpast, Trail.cons ?_ ha.future⟩
          exact ⟨m, hm, hadmits, hsource, hdropped, hc, hn⟩

/-- Making a move again leads to the snapshot after the cursor. The record is
    renewed, as the points it drops are those of the present map. -/
theorem makeAgain (hv : Faithful v) (ha : Aligned v p t) {q : Pair α} {side : Option Side}
    (h : p.makeAgain = .ok side q) : Aligned v q (t.follow .redo (.ok side q)) := by
  cases hredo : p.moves.redo with
  | nil =>
      rw [Pair.makeAgain_nil hredo] at h
      cases h
      exact ha
  | cons r rs =>
      have hfuture := ha.future
      rw [hredo] at hfuture
      rcases t with ⟨before, now, after⟩
      rcases hfuture.of_cons with ⟨c, cs, hafter, ⟨m, hm, -, hsource, -, hn, hc⟩, hfuture⟩
      rcases List.map_eq_cons_iff.mp hafter with ⟨b, bs, rfl, rfl, rfl⟩
      rw [Pair.makeAgain_eq hredo] at h
      cases hmap : p.map.moveBoundary r.side r.target with
      | error cause => rw [hmap] at h; cases h
      | ok moved =>
          rcases moved with ⟨map, dropped⟩
          rw [hmap] at h
          cases h
          rcases moveBoundary_eq_ok_iff.mp hmap with ⟨hadmits, hcut⟩
          -- The move is made of the present map, which looks like that of the record.
          have hsame : v p.map = v m := ha.now.trans hn.symm
          have hforth : v (p.map.cut r.side r.target).1 = v b :=
            (hv.cut r.side r.target hsame).trans hc
          have hmapcut : (p.map.cut r.side r.target).1 = map := congrArg Prod.fst hcut
          refine ⟨hmapcut ▸ ha.sound.cut hadmits, hmapcut ▸ hforth, Trail.cons ?_ ha.past, hfuture⟩
          refine ⟨p.map, ha.sound, hadmits, ?_, (congrArg Prod.snd hcut).symm, ha.now, hforth⟩
          exact hsource.trans (boundary_eq_of_ends (hv.ends hsame) r.side).symm

/-- Going back is not refused where the outline is that of the snapshot. -/
theorem undo_accepted (ha : Aligned outline p t) {cause : MarkerError α} {q : Pair α} :
    p.takeBack ≠ .error cause q := by
  intro h
  cases hundo : p.moves.undo with
  | nil => rw [Pair.takeBack_nil hundo] at h; cases h
  | cons r rs =>
      have hpast := ha.past
      rw [hundo] at hpast
      rcases hpast.of_cons with ⟨_, _, -, ⟨m, hm, -, hsource, hdropped, -, hn⟩, -⟩
      have hback : (p.map.extended r.side r.source r.dropped).outline = m.outline := by
        rw [hsource, hdropped]
        exact faithful_outline.back r.side r.target hm (ha.now.trans hn.symm)
      -- The outline is that of a sound map, and the speeds of the ends are still those of a pair.
      have hspeed := forall_mem_points.mp ha.sound.speed
      have hsound : (p.map.extended r.side r.source r.dropped).Sound := by
        cases hside : r.side with
        | start => rw [hside] at hback; exact hm.of_outline hback hspeed.1 hspeed.2.2
        | stop => rw [hside] at hback; exact hm.of_outline hback hspeed.1 hspeed.2.2
      rw [Pair.takeBack_eq hundo,
        restoreBoundary_eq_ok_iff.mpr ⟨(flaw?_eq_none_iff _).mpr hsound, rfl⟩] at h
      cases h

/-- An edit of the speeds that a view does not show. The other edits are moves,
    or go through the moves, and the timeline follows them. -/
def Hidden (v : SpeedMap α → β) : PairEdit α → Prop
  | .setSpeed speed => ∀ ⦃p q : Pair α⦄, p.setSpeed speed = .ok q → v q.map = v p.map
  | .replaceMap map => ∀ ⦃p q : Pair α⦄, p.replaceMap map = .ok q → v q.map = v p.map
  | _ => True

/-- An edit that a view does not show keeps pair and timeline aligned. -/
theorem edit (hv : Faithful v) {e : PairEdit α} (he : Hidden v e) {w : Watched α}
    (ha : Aligned v w.pair w.timeline) : Aligned v (w.step e).pair (w.step e).timeline := by
  unfold Watched.step
  cases hr : Pair.edit e w.pair with
  | error cause q =>
      -- A refusal leaves the pair, and the timeline waits.
      have hq : q = w.pair := Pair.edit_atomic e hr
      have hstay : w.timeline.follow e (.error cause q) = w.timeline := by cases e <;> rfl
      rw [hstay, hq]
      exact ha
  | ok side q =>
      cases e with
      | move s time => exact ha.move (InPlace.update_return_eq_ok.mp hr).1
      | undo => exact ha.takeBack hv hr
      | redo => exact ha.makeAgain hv hr
      | setSpeed speed =>
          have hq := (InPlace.update_return_eq_ok.mp hr).1
          have hview := he hq
          rcases Pair.setSpeed_eq_ok hq with ⟨m, hm, rfl⟩
          exact ha.remap ((setSpeed_spec hm).2 ha.sound) hview
      | replaceMap map =>
          have hq := (InPlace.update_return_eq_ok.mp hr).1
          have hview := he hq
          rcases Pair.replaceMap_eq_ok hq with ⟨hm, rfl⟩
          exact ha.remap ((flaw?_eq_none_iff _).mp hm) hview

/-- A run of edits that a view does not show keeps pair and timeline aligned. -/
theorem run (hv : Faithful v) {p : Pair α} (hp : p.map.Sound) (hnew : p.moves = {})
    {es : List (PairEdit α)} (hes : ∀ e ∈ es, Hidden v e) :
    Aligned v (watch p es).pair (watch p es).timeline := by
  -- The induction on the edits starts anywhere in the run.
  suffices h : ∀ w : Watched α, Aligned v w.pair w.timeline →
      Aligned v (es.foldl Watched.step w).pair (es.foldl Watched.step w).timeline from
    h ⟨p, .start p.map⟩ (start hp hnew)
  induction es with
  | nil => exact fun w h => h
  | cons e es ih =>
      intro w hw
      rcases List.forall_mem_cons.mp hes with ⟨he, hes⟩
      exact ih hes (w.step e) (hw.edit hv he)

/-- A map that replaces another is brought onto its ends first. -/
theorem hidden_ends (e : PairEdit α) : Hidden ends e := by
  cases e with
  | setSpeed speed =>
      intro p q h
      rcases Pair.setSpeed_eq_ok h with ⟨m, hm, rfl⟩
      exact faithful_outline.ends (setSpeed_spec hm).1
  | replaceMap map =>
      intro p q h
      rcases Pair.replaceMap_eq_ok h with ⟨-, rfl⟩
      rfl
  | _ => trivial

omit [OrderedScalar α] in
theorem hidden_outline {e : PairEdit α} (h : ∀ map, e ≠ .replaceMap map) : Hidden outline e := by
  cases e with
  | setSpeed speed =>
      intro p q h
      rcases Pair.setSpeed_eq_ok h with ⟨m, hm, rfl⟩
      exact (setSpeed_spec hm).1
  | replaceMap map => exact absurd rfl (h map)
  | _ => trivial

omit [OrderedScalar α] in
theorem hidden_id {e : PairEdit α} (hmap : ∀ map, e ≠ .replaceMap map)
    (hspeed : ∀ speed, e ≠ .setSpeed speed) : Hidden id e := by
  cases e with
  | setSpeed speed => exact absurd rfl (hspeed speed)
  | replaceMap map => exact absurd rfl (hmap map)
  | _ => trivial

end Aligned

/-- A move that is accepted puts one marker where it is told and leaves the
    other. -/
theorem Pair.move_boundaries {α : Type} [Scalar α] {p q : Pair α} {side : Side} {time : α}
    (h : p.move side time = .ok q) :
    q.map.boundary side = time ∧ q.map.boundary side.opposite = p.map.boundary side.opposite := by
  rcases Pair.move_eq_ok h with ⟨-, rfl⟩
  cases side with
  | start => exact ⟨rfl, rfl⟩
  | stop => exact ⟨rfl, rfl⟩

/-- A run of edits of a pair follows its timeline. The markers are those of
    the snapshot at the cursor, the stacks have a record for each snapshot
    before and after, and it is only at the two ends of the timeline that no
    move is left to go back or forth. Going forth is never refused. Unless the
    map was replaced, going back is not refused either and the points have the
    times that they have in the snapshot. Unless the speed was set too, the map
    is the snapshot. -/
theorem moves_follow_timeline (p : Pair Float) (hvalid : p.map.flaw? = none) (hnew : p.moves = {})
    (es : List (PairEdit Float)) :
    let q := (watch p es).pair
    let t := (watch p es).timeline
    (q.start = t.now.start ∧ q.stop = t.now.stop) ∧
    (q.moves.undo.length = t.before.length ∧ q.moves.redo.length = t.after.length) ∧
    ((∀ q', Pair.edit .undo q = .ok none q' → t.before = []) ∧
      ∀ q', Pair.edit .redo q = .ok none q' → t.after = []) ∧
    (∀ side time q', Pair.edit (.move side time) q = .ok none q' →
      q'.map.boundary side = time ∧
        q'.map.boundary side.opposite = q.map.boundary side.opposite) ∧
    (∀ cause q', Pair.edit .redo q ≠ .error cause q') ∧
    ((∀ map, .replaceMap map ∉ es) →
      (∀ cause q', Pair.edit .undo q ≠ .error cause q') ∧ q.map.times = t.now.times) ∧
    ((∀ map, .replaceMap map ∉ es) → (∀ speed, .setSpeed speed ∉ es) → q.map = t.now) := by
  intro q t
  have hsound := (SpeedMap.flaw?_eq_none_iff p.map).mp hvalid
  -- Every run is aligned in the ends, and some are in the outline or the whole map.
  have hends : Aligned SpeedMap.ends q t :=
    .run SpeedMap.faithful_ends hsound hnew fun e _ => Aligned.hidden_ends e
  have hnot : ∀ {e f : PairEdit Float}, f ∉ es → e ∈ es → e ≠ f := by
    intro e f hf he hef
    exact hf (hef ▸ he)
  have houtline : (∀ map, .replaceMap map ∉ es) → Aligned SpeedMap.outline q t := fun hmap =>
    .run SpeedMap.faithful_outline hsound hnew fun e he =>
      Aligned.hidden_outline fun map => hnot (hmap map) he
  have hbefore : q.moves.undo.length = t.before.length := by
    rw [hends.past.length_eq, List.length_map]
  have hafter : q.moves.redo.length = t.after.length := by
    rw [hends.future.length_eq, List.length_map]
  refine ⟨SpeedMap.ends_inj hends.now, ⟨hbefore, hafter⟩, ⟨?_, ?_⟩, ?_,
    fun _ _ => hends.redo_accepted SpeedMap.faithful_ends,
    fun hmap => ⟨fun _ _ => (houtline hmap).undo_accepted, ?_⟩, fun hmap hspeed => ?_⟩
  · intro q' h
    rw [Pair.takeBack_none h] at hbefore
    exact List.eq_nil_of_length_eq_zero hbefore.symm
  · intro q' h
    rw [Pair.makeAgain_none h] at hafter
    exact List.eq_nil_of_length_eq_zero hafter.symm
  · exact fun side time q' h => Pair.move_boundaries (InPlace.update_return_eq_ok.mp h).1
  · exact SpeedMap.times_eq_of_outline (houtline hmap).now
  · have hid : Aligned id q t := .run SpeedMap.faithful_id hsound hnew fun e he =>
      Aligned.hidden_id (fun map => hnot (hmap map) he) fun speed => hnot (hspeed speed) he
    exact hid.now

/-- A pair with a point between its markers. -/
def ramp : Pair Float := .ofMap ⟨⟨0.0, 1.0⟩, [⟨1.0, 2.0⟩], ⟨3.0, 1.0⟩⟩ ⟨0, 0, .full, .full⟩

/-- The point that a move dropped is back after the move was taken back, though
    the speed was set in between. -/
theorem moves_follow_timeline_ramp :
    ramp.map.flaw? = none ∧ ramp.moves = {} ∧
      (watch ramp [.move .start 2.0, .setSpeed 3.0, .undo]).pair.map.times = ramp.map.times :=
  ⟨rfl, rfl, ((moves_follow_timeline ramp rfl rfl
    [.move .start 2.0, .setSpeed 3.0, .undo]).2.2.2.2.2.1 (by simp)).2⟩

end Retime
