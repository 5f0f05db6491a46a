import Retime.Speed.Map
import Retime.Proofs.Order

/-!
# Sound Speed Maps

What reading a speed map checks, as a predicate, and that the edits of a map
keep it.

`flaw?` looks for the first thing that is wrong, in an order that matters only
for the wording. `Sound` says that there is nothing to be found: times are
finite and in order, the map spans some time, and speeds are positive. Order
is stated between any two points and not between neighbours, as that is the
form in which it is used; the step from one to the other is transitivity.

A boundary that is moved inwards splits the points between the ends in two.
As they are in order the points that are dropped stand together at that end,
so putting them back there restores the map. `extended_cut` is that argument.
It needs no more than the order, so it holds of moves outwards too, which drop
nothing.

The end points have speeds of their own that a boundary move never looks at.
Everything else about a map is its outline, and `cut` and `extended` are
functions of outlines, which is what lets a move be taken back after the speed
was changed in between.

## Main definitions

* `SpeedMap.Sound`: There is nothing wrong with a map.
* `SpeedMap.outline`: A map without the speeds of its ends.
* `SpeedMap.plain`: A map of two points with one speed.
* `SpeedMap.times`, `SpeedMap.speeds`: The two rows that a map is made of.

## Theorems

* `Sound.reversed`, `Sound.plain`: Maps that are made of sound ones are sound.
* `flaw?_eq_none_iff`: A map without a flaw is a sound one.
* `Sound.cut`: A boundary that is moved leaves a sound map.
* `extended_cut`: Putting the dropped points back restores the map.
* `cut_outline`, `extended_outline`: Both are functions of the outline.
* `setSpeed_spec`: The uniform speed is a matter of the ends alone.
* `ofList_points_eq_ok_iff`, `restoreBoundary_eq_ok_iff`: A map that is checked is
  returned as it is.
-/

namespace Retime

/-- A test that no element fails behind one that passes keeps a tail. -/
theorem filter_not_append_filter {β : Type} {test : β → Bool} {l : List β}
    (h : l.Pairwise fun a b => test a → test b) :
    l.filter (fun a => !test a) ++ l.filter test = l := by
  induction l with
  | nil => rfl
  | cons a l ih =>
      rcases List.pairwise_cons.mp h with ⟨hfirst, hrest⟩
      by_cases ha : test a
      -- All that follows the first element that passes does too.
      · have hall : ∀ b ∈ l, test b := fun b hb => hfirst b hb ha
        have hnone : l.filter (fun b => !test b) = [] := by
          rw [List.filter_eq_nil_iff]
          intro b hb
          simp only [hall b hb, Bool.not_true, Bool.false_eq_true, not_false_eq_true]
        simp only [List.filter_cons, ha, Bool.not_true, Bool.false_eq_true, if_false, if_true]
        rw [hnone, List.filter_eq_self.mpr hall, List.nil_append]
      · simp only [List.filter_cons, ha, Bool.not_false, if_true, Bool.false_eq_true, if_false]
        rw [List.cons_append, ih hrest]

/-- A test that no element passes behind one that fails keeps a front. -/
theorem filter_append_filter_not {β : Type} {test : β → Bool} {l : List β}
    (h : l.Pairwise fun a b => test b → test a) :
    l.filter test ++ l.filter (fun a => !test a) = l := by
  -- The opposite test is one that no element fails behind one that passes.
  have hnot : l.Pairwise fun a b => (!test a) = true → (!test b) = true := by
    refine h.imp (fun {a b} hba ha => ?_)
    rw [Bool.not_eq_true'] at ha ⊢
    cases hb : test b with
    | false => rfl
    | true => rw [hba hb] at ha; cases ha
  have hkey := filter_not_append_filter hnot
  simpa only [Bool.not_not] using hkey

/-- A property of the elements of a list with their places that does not look
    at the place. -/
theorem forall_mem_zipIdx {β : Type} {P : β → Prop} (l : List β) :
    (∀ x ∈ l.zipIdx, P x.1) ↔ ∀ b ∈ l, P b := by
  have h := List.forall_mem_map (f := Prod.fst) (l := l.zipIdx) (P := P)
  rw [List.zipIdx_map_fst] at h
  exact h.symm

/-- A transitive relation between neighbours holds of any two elements. -/
theorem pairwise_iff_forall_mem_zip_tail {β : Type} {R : β → β → Prop}
    (htrans : ∀ {a b c}, R a b → R b c → R a c) (l : List β) :
    l.Pairwise R ↔ ∀ s ∈ l.zip l.tail, R s.1 s.2 := by
  induction l with
  | nil => simp only [List.Pairwise.nil, List.zip_nil_left, List.not_mem_nil, false_imp_iff,
      implies_true]
  | cons a l ih =>
      cases l with
      | nil => simp only [List.pairwise_singleton, List.tail_cons, List.zip_nil_right,
          List.not_mem_nil, false_imp_iff, implies_true]
      | cons b l =>
          change _ ↔ ∀ s ∈ (a, b) :: (b :: l).zip l, R s.1 s.2
          rw [List.pairwise_cons, ih, List.forall_mem_cons, List.forall_mem_cons, List.tail_cons]
          refine ⟨fun h => ⟨h.1.1, h.2⟩, fun h => ⟨⟨h.1, ?_⟩, h.2⟩⟩
          -- Beyond its neighbour an element is reached through that neighbour.
          intro c hc
          exact htrans h.1 ((List.pairwise_cons.mp (ih.mpr h.2)).1 c hc)

namespace SpeedMap

variable {α : Type}

/-- A map without the speeds of its ends. -/
def outline (m : SpeedMap α) : α × List (SpeedPoint α) × α :=
  (m.start, m.inner, m.stop)

/-- The map of two points with one speed. -/
def plain (start stop speed : α) : SpeedMap α := ⟨⟨start, speed⟩, [], ⟨stop, speed⟩⟩

/-- The times of all points of a map. -/
def times (m : SpeedMap α) : List α := m.points.map SpeedPoint.time

/-- The speeds of all points of a map. -/
def speeds (m : SpeedMap α) : List α := m.points.map SpeedPoint.speed

theorem outline_inj {m n : SpeedMap α} (h : m.outline = n.outline) :
    m.start = n.start ∧ m.inner = n.inner ∧ m.stop = n.stop := by
  rw [outline, outline, Prod.mk.injEq, Prod.mk.injEq] at h
  exact h

theorem times_eq_of_outline {m n : SpeedMap α} (h : m.outline = n.outline) :
    m.times = n.times := by
  rcases outline_inj h with ⟨hstart, hinner, hstop⟩
  unfold times points
  rw [List.map_cons, List.map_cons, List.map_append, List.map_append, hinner]
  change m.start :: (_ ++ [m.stop]) = n.start :: (_ ++ [n.stop])
  rw [hstart, hstop]

theorem forall_mem_points {m : SpeedMap α} {P : SpeedPoint α → Prop} :
    (∀ p ∈ m.points, P p) ↔ P m.first ∧ (∀ p ∈ m.inner, P p) ∧ P m.last := by
  simp only [points, List.forall_mem_cons, List.forall_mem_append, List.not_mem_nil,
    false_imp_iff, implies_true, and_true]

/-- A segment lies between two points of its map. -/
theorem mem_points_of_mem_segments {m : SpeedMap α} {left right : SpeedPoint α}
    (h : (left, right) ∈ m.segments) : left ∈ m.points ∧ right ∈ m.points := by
  rcases List.of_mem_zip h with ⟨hleft, hright⟩
  exact ⟨hleft, List.mem_cons_of_mem _ hright⟩

theorem extended_outline {m n : SpeedMap α} (h : m.outline = n.outline) (side : Side) (time : α)
    (ps : List (SpeedPoint α)) :
    (m.extended side time ps).outline = (n.extended side time ps).outline := by
  rcases outline_inj h with ⟨hstart, hinner, hstop⟩
  cases side with
  | start =>
      change (time, ps ++ m.inner, m.stop) = (time, ps ++ n.inner, n.stop)
      rw [hinner, hstop]
  | stop =>
      change (m.start, m.inner ++ ps, time) = (n.start, n.inner ++ ps, time)
      rw [hstart, hinner]

variable [Scalar α]

/-- There is nothing wrong with a map. -/
structure Sound (m : SpeedMap α) : Prop where
  finite : ∀ p ∈ m.points, Scalar.isFinite p.time = true
  speed : ∀ p ∈ m.points, Scalar.isPositive p.speed = true
  sorted : m.points.Pairwise fun p q => p.time ≤ q.time
  span : ¬ m.stop ≤ m.start

theorem pairwise_points {m : SpeedMap α} :
    (m.points.Pairwise fun p q => p.time ≤ q.time) ↔
      (∀ p ∈ m.inner, m.start ≤ p.time) ∧ m.start ≤ m.stop ∧
        (m.inner.Pairwise fun p q => p.time ≤ q.time) ∧ ∀ p ∈ m.inner, p.time ≤ m.stop := by
  simp only [points, start, stop, List.pairwise_cons, List.pairwise_append,
    List.forall_mem_append, List.forall_mem_cons, List.not_mem_nil, false_imp_iff, implies_true,
    and_true, List.Pairwise.nil, true_and, and_assoc]

theorem Sound.parts {m : SpeedMap α} (hm : m.Sound) :
    (∀ p ∈ m.inner, m.start ≤ p.time) ∧ m.start ≤ m.stop ∧
      (m.inner.Pairwise fun p q => p.time ≤ q.time) ∧ ∀ p ∈ m.inner, p.time ≤ m.stop :=
  pairwise_points.mp hm.sorted

theorem Sound.finite_start {m : SpeedMap α} (hm : m.Sound) : Scalar.isFinite m.start = true :=
  (forall_mem_points.mp hm.finite).1

theorem Sound.finite_stop {m : SpeedMap α} (hm : m.Sound) : Scalar.isFinite m.stop = true :=
  (forall_mem_points.mp hm.finite).2.2

/-- Whether a map is sound is a matter of its outline and the speeds of its
    ends. -/
theorem Sound.of_outline {m n : SpeedMap α} (hm : m.Sound) (h : n.outline = m.outline)
    (hfirst : Scalar.isPositive n.first.speed = true)
    (hlast : Scalar.isPositive n.last.speed = true) : n.Sound := by
  rcases outline_inj h with ⟨hstart, hinner, hstop⟩
  -- Finite times and their order are read off the outline, and only two speeds are not in it.
  have hfinite := forall_mem_points.mp hm.finite
  have hspeed := forall_mem_points.mp hm.speed
  refine ⟨forall_mem_points.mpr ?_, forall_mem_points.mpr ?_, pairwise_points.mpr ?_, ?_⟩
  · change Scalar.isFinite n.start = true ∧ _ ∧ Scalar.isFinite n.stop = true
    rw [hstart, hinner, hstop]
    exact hfinite
  · rw [hinner]
    exact ⟨hfirst, hspeed.2.1, hlast⟩
  · rw [hstart, hinner, hstop]
    exact hm.parts
  · rw [hstart, hstop]
    exact hm.span

/-- Whether a map is sound is a matter of its times and its speeds. -/
theorem sound_iff {m : SpeedMap α} :
    m.Sound ↔ (∀ time ∈ m.times, Scalar.isFinite time = true) ∧
      (∀ speed ∈ m.speeds, Scalar.isPositive speed = true) ∧ m.times.Pairwise (· ≤ ·) ∧
        ¬ m.stop ≤ m.start := by
  unfold times speeds
  rw [List.forall_mem_map, List.forall_mem_map, List.pairwise_map]
  exact ⟨fun h => ⟨h.finite, h.speed, h.sorted, h.span⟩,
    fun h => ⟨h.1, h.2.1, h.2.2.1, h.2.2.2⟩⟩

section Reversal

omit [Scalar α]

/-- Points with the speeds of as many others. -/
theorem map_zipWith_speed {ps qs : List (SpeedPoint α)} (h : ps.length = qs.length) :
    let rs := ps.zipWith (fun p q => (⟨p.time, q.speed⟩ : SpeedPoint α)) qs
    rs.map SpeedPoint.time = ps.map SpeedPoint.time ∧
      rs.map SpeedPoint.speed = qs.map SpeedPoint.speed := by
  induction ps generalizing qs with
  | nil =>
      cases qs with
      | nil => exact ⟨rfl, rfl⟩
      | cons q qs => cases h
  | cons p ps ih =>
      cases qs with
      | nil => cases h
      | cons q qs =>
          -- Rows of one length end together, so no point is left over.
          have hrest := ih (Nat.succ.inj h)
          exact ⟨congrArg (p.time :: ·) hrest.1, congrArg (q.speed :: ·) hrest.2⟩

theorem reversed_times (m : SpeedMap α) : m.reversed.times = m.times := by
  unfold times points reversed
  rw [List.map_cons, List.map_cons, List.map_append, List.map_append,
    (map_zipWith_speed List.length_reverse.symm).1]
  rfl

theorem reversed_speeds (m : SpeedMap α) : m.reversed.speeds = m.speeds.reverse := by
  unfold speeds points reversed
  rw [List.map_cons, List.map_cons, List.map_append, List.map_append,
    (map_zipWith_speed List.length_reverse.symm).2, List.reverse_cons, List.reverse_append,
    List.map_reverse]
  rfl

end Reversal

/-- A sound map with its speeds in reverse is sound. -/
theorem Sound.reversed {m : SpeedMap α} (hm : m.Sound) : m.reversed.Sound := by
  rcases sound_iff.mp hm with ⟨hfinite, hspeed, hsorted, hspan⟩
  rw [sound_iff, reversed_times, reversed_speeds]
  exact ⟨hfinite, fun v hv => hspeed v (List.mem_reverse.mp hv), hsorted, hspan⟩

/-- The plain map with the ends of a sound one is sound at any speed. -/
theorem Sound.plain {m : SpeedMap α} (hm : m.Sound) {speed : α}
    (hspeed : Scalar.isPositive speed = true) : (plain m.start m.stop speed).Sound where
  finite := forall_mem_points.mpr ⟨hm.finite_start, (fun _ hp => nomatch hp), hm.finite_stop⟩
  speed := forall_mem_points.mpr ⟨hspeed, (fun _ hp => nomatch hp), hspeed⟩
  sorted := pairwise_points.mpr ⟨(fun _ hp => nomatch hp), hm.parts.2.1, List.Pairwise.nil,
    fun _ hp => nomatch hp⟩
  span := hm.span

section Reading

theorem pointFlaw?_eq_none_iff (p : SpeedPoint α) (i : Nat) :
    pointFlaw? p i = none ↔ Scalar.isFinite p.time = true ∧ Scalar.isPositive p.speed = true := by
  unfold pointFlaw?
  cases Scalar.isFinite p.time with
  | false => simp only [Bool.not_false, if_true, reduceCtorEq, Bool.false_eq_true, false_and]
  | true =>
      cases Scalar.isPositive p.speed with
      | false => simp only [Bool.not_true, Bool.not_false, Bool.false_eq_true, if_true, if_false,
          reduceCtorEq, and_false]
      | true => simp only [Bool.not_true, Bool.false_eq_true, if_false, and_self]

theorem orderFlaw?_eq_none_iff (s : SpeedPoint α × SpeedPoint α) (i : Nat) :
    orderFlaw? s i = none ↔ ¬ s.2.time < s.1.time := by
  unfold orderFlaw?
  by_cases h : s.2.time < s.1.time
  · simp only [h, if_true, reduceCtorEq, not_true_eq_false]
  · simp only [h, if_false, not_false_eq_true]

/-- What it takes that nothing is found, as it is looked for. -/
theorem flaw?_eq_none {m : SpeedMap α} :
    m.flaw? = none ↔
      (∀ p ∈ m.points, Scalar.isFinite p.time = true ∧ Scalar.isPositive p.speed = true) ∧
        (∀ s ∈ m.segments, ¬ s.2.time < s.1.time) ∧ ¬ m.stop ≤ m.start := by
  -- The three checks are made in turn, and the first flaw is the one that is found.
  have hspan : (if m.stop ≤ m.start then some (MapFlaw.noSpan : MapFlaw α) else none) = none ↔
      ¬ m.stop ≤ m.start := by
    by_cases h : m.stop ≤ m.start
    · simp only [h, if_true, reduceCtorEq, not_true_eq_false]
    · simp only [h, if_false, not_false_eq_true]
  unfold flaw?
  rw [Option.or_eq_none_iff, Option.or_eq_none_iff, List.findSome?_eq_none_iff,
    List.findSome?_eq_none_iff, hspan]
  simp only [pointFlaw?_eq_none_iff, orderFlaw?_eq_none_iff]
  rw [forall_mem_zipIdx (P := fun p : SpeedPoint α =>
      Scalar.isFinite p.time = true ∧ Scalar.isPositive p.speed = true),
    forall_mem_zipIdx (P := fun s : SpeedPoint α × SpeedPoint α => ¬ s.2.time < s.1.time)]

/-- A map that is checked and returned. -/
theorem validated_eq_ok_iff {m n : SpeedMap α} :
    (do m.validate; return m : Except (MarkerError α) (SpeedMap α)) = .ok n ↔
      m.flaw? = none ∧ m = n := by
  unfold validate
  cases m.flaw? with
  | none => exact ⟨fun h => ⟨rfl, Except.ok.inj h⟩, fun h => congrArg Except.ok h.2⟩
  | some flaw => exact ⟨(fun h => nomatch h), (fun h => nomatch h.1)⟩

omit [Scalar α] in
/-- A list that a map was made into gives the same map again. -/
theorem ofEnds?_points (m : SpeedMap α) : ofEnds? m.points = some m := by
  rcases m with ⟨first, inner, last⟩
  cases inner with
  | nil => rfl
  | cons p inner =>
      change some (SpeedMap.mk first (p :: (inner ++ [last])).dropLast _) = _
      congr 1
      rw [SpeedMap.mk.injEq]
      refine ⟨rfl, ?_, ?_⟩
      · rw [← List.cons_append, List.dropLast_concat]
      · exact List.getLast_concat (l := p :: inner)

theorem ofList_points_eq_ok_iff {m n : SpeedMap α} :
    ofList m.points = .ok n ↔ m.flaw? = none ∧ m = n := by
  unfold ofList
  rw [ofEnds?_points]
  exact validated_eq_ok_iff

theorem restoreBoundary_eq_ok_iff {m n : SpeedMap α} {side : Side} {time : α}
    {dropped : List (SpeedPoint α)} :
    m.restoreBoundary side time dropped = .ok n ↔
      (m.extended side time dropped).flaw? = none ∧ m.extended side time dropped = n :=
  validated_eq_ok_iff

/-- A speed that some map takes is positive. -/
theorem isPositive_of_constant {start stop speed : α} {m : SpeedMap α}
    (h : constant start stop speed = .ok m) : Scalar.isPositive speed = true := by
  have hflaw := (ofList_points_eq_ok_iff (m := plain start stop speed)).mp h
  exact ((flaw?_eq_none.mp hflaw.1).1 _ List.mem_cons_self).2

variable [OrderedScalar α]

/-- Points with finite times are in order as soon as neighbours are. -/
theorem sorted_iff_segments {m : SpeedMap α} (hf : ∀ p ∈ m.points, Scalar.isFinite p.time = true) :
    (m.points.Pairwise fun p q => p.time ≤ q.time) ↔
      ∀ s ∈ m.segments, ¬ s.2.time < s.1.time := by
  rw [pairwise_iff_forall_mem_zip_tail
    (R := fun p q : SpeedPoint α => p.time ≤ q.time) OrderedScalar.trans]
  change (∀ s ∈ m.segments, _) ↔ _
  refine forall₂_congr (fun s hs => ?_)
  rcases mem_points_of_mem_segments hs with ⟨hleft, hright⟩
  exact (OrderedScalar.not_lt (hf _ hright) (hf _ hleft)).symm

/-- A map without a flaw is a sound one. -/
theorem flaw?_eq_none_iff (m : SpeedMap α) : m.flaw? = none ↔ m.Sound := by
  rw [flaw?_eq_none]
  constructor
  · rintro ⟨hpoint, horder, hsp⟩
    have hf : ∀ p ∈ m.points, Scalar.isFinite p.time = true := fun p hp => (hpoint p hp).1
    exact ⟨hf, fun p hp => (hpoint p hp).2, (sorted_iff_segments hf).mpr horder, hsp⟩
  · rintro ⟨hf, hs, hsorted, hsp⟩
    exact ⟨fun p hp => ⟨hf p hp, hs p hp⟩, (sorted_iff_segments hf).mp hsorted, hsp⟩

end Reading

section Boundaries

theorem cut_start (time : α) (m : SpeedMap α) :
    m.cut .start time = (⟨{ m.first with time }, m.inner.filter fun p => time ≤ p.time, m.last⟩,
      m.inner.filter fun p => !decide (time ≤ p.time)) := by
  simp only [cut, List.partition_eq_filter_filter]
  rfl

theorem cut_stop (time : α) (m : SpeedMap α) :
    m.cut .stop time = (⟨m.first, m.inner.filter fun p => p.time ≤ time, { m.last with time }⟩,
      m.inner.filter fun p => !decide (p.time ≤ time)) := by
  simp only [cut, List.partition_eq_filter_filter]
  rfl

theorem cut_outline {m n : SpeedMap α} (h : m.outline = n.outline) (side : Side) (time : α) :
    (m.cut side time).1.outline = (n.cut side time).1.outline ∧
      (m.cut side time).2 = (n.cut side time).2 := by
  rcases outline_inj h with ⟨hstart, hinner, hstop⟩
  cases side with
  | start =>
      rw [cut_start, cut_start, hinner]
      exact ⟨congrArg (fun stop => (time, _, stop)) hstop, rfl⟩
  | stop =>
      rw [cut_stop, cut_stop, hinner]
      exact ⟨congrArg (fun start => (start, _, time)) hstart, rfl⟩

/-- A boundary may be moved to any time that does not reach the other end. -/
theorem admits_iff (side : Side) (time : α) (m : SpeedMap α) :
    m.admits side time = true ↔ Scalar.isFinite time = true ∧
      match side with
      | .start => ¬ m.stop ≤ time
      | .stop => ¬ time ≤ m.start := by
  cases side with
  | start => rw [admits, Bool.and_eq_true, Bool.not_eq_true', decide_eq_false_iff_not]
  | stop => rw [admits, Bool.and_eq_true, Bool.not_eq_true', decide_eq_false_iff_not]

variable [OrderedScalar α]

/-- Putting the dropped points back restores the map. -/
theorem extended_cut {m : SpeedMap α} (hm : m.Sound) (side : Side) (time : α) :
    (m.cut side time).1.extended side (m.boundary side) (m.cut side time).2 = m := by
  rcases hm.parts with ⟨-, -, hsorted, -⟩
  cases side with
  | start =>
      have hkeep : m.inner.Pairwise fun p q => decide (time ≤ p.time) → decide (time ≤ q.time) := by
        refine hsorted.imp (fun {p q} hpq hp => ?_)
        rw [decide_eq_true_iff] at hp ⊢
        exact OrderedScalar.trans hp hpq
      -- The points before the new start are in front of all others.
      rw [cut_start]
      unfold extended
      rw [filter_not_append_filter hkeep]
      rfl
  | stop =>
      have hkeep : m.inner.Pairwise fun p q => decide (q.time ≤ time) → decide (p.time ≤ time) := by
        refine hsorted.imp (fun {p q} hpq hq => ?_)
        rw [decide_eq_true_iff] at hq ⊢
        exact OrderedScalar.trans hpq hq
      -- The points after the new end are behind all others.
      rw [cut_stop]
      unfold extended
      rw [filter_append_filter_not hkeep]
      rfl

/-- A boundary that is moved leaves a sound map. -/
theorem Sound.cut {m : SpeedMap α} (hm : m.Sound) {side : Side} {time : α}
    (h : m.admits side time = true) : (m.cut side time).1.Sound := by
  have hfinite := forall_mem_points.mp hm.finite
  have hspeed := forall_mem_points.mp hm.speed
  rcases hm.parts with ⟨hafter, -, hsorted, hbefore⟩
  -- Dropping points keeps what holds of each and their order; the new end is in
  -- order with those that are kept by the test that kept them.
  cases side with
  | start =>
      rcases (admits_iff _ _ _).mp h with ⟨htime, hspan⟩
      have hle : time ≤ m.stop := OrderedScalar.le_of_not_le htime hm.finite_stop hspan
      rw [cut_start]
      refine ⟨forall_mem_points.mpr ⟨htime, ?_, hfinite.2.2⟩,
        forall_mem_points.mpr ⟨hspeed.1, ?_, hspeed.2.2⟩,
        pairwise_points.mpr ⟨?_, hle, hsorted.filter _, ?_⟩, hspan⟩
      · exact fun p hp => hfinite.2.1 p ((List.mem_filter.mp hp).1)
      · exact fun p hp => hspeed.2.1 p ((List.mem_filter.mp hp).1)
      · exact fun p hp => of_decide_eq_true (List.mem_filter.mp hp).2
      · exact fun p hp => hbefore p ((List.mem_filter.mp hp).1)
  | stop =>
      rcases (admits_iff _ _ _).mp h with ⟨htime, hspan⟩
      have hle : m.start ≤ time := OrderedScalar.le_of_not_le hm.finite_start htime hspan
      rw [cut_stop]
      refine ⟨forall_mem_points.mpr ⟨hfinite.1, ?_, htime⟩,
        forall_mem_points.mpr ⟨hspeed.1, ?_, hspeed.2.2⟩,
        pairwise_points.mpr ⟨?_, hle, hsorted.filter _, ?_⟩, hspan⟩
      · exact fun p hp => hfinite.2.1 p ((List.mem_filter.mp hp).1)
      · exact fun p hp => hspeed.2.1 p ((List.mem_filter.mp hp).1)
      · exact fun p hp => hafter p ((List.mem_filter.mp hp).1)
      · exact fun p hp => of_decide_eq_true (List.mem_filter.mp hp).2

end Boundaries

section Edits

omit [Scalar α] in
theorem retimeLast_concat (time : α) (ps : List (SpeedPoint α)) (p : SpeedPoint α) :
    retimeLast time (ps ++ [p]) = ps ++ [{ p with time }] := by
  induction ps with
  | nil => rfl
  | cons q ps ih =>
      cases ps with
      | nil => rfl
      | cons r ps =>
          rw [List.cons_append, List.cons_append, retimeLast, ← List.cons_append, ih]
          rfl

/-- A map with both ends at other times. -/
def retimed (start stop : α) (m : SpeedMap α) : SpeedMap α :=
  ⟨{ m.first with time := start }, m.inner, { m.last with time := stop }⟩

omit [Scalar α] in
theorem retime_points (start stop : α) (m : SpeedMap α) :
    retimeLast stop (retimeFirst start m.points) = (m.retimed start stop).points := by
  unfold points
  rw [retimeFirst, ← List.cons_append, retimeLast_concat]
  rfl

theorem moveBoundary_eq_ok_iff {m n : SpeedMap α} {side : Side} {time : α}
    {dropped : List (SpeedPoint α)} :
    m.moveBoundary side time = .ok (n, dropped) ↔
      m.admits side time = true ∧ m.cut side time = (n, dropped) := by
  unfold moveBoundary
  by_cases h : m.admits side time = true
  · rw [if_pos h, Except.ok.injEq]
    exact (and_iff_right h).symm
  · rw [if_neg h]
    exact ⟨(fun hc => nomatch hc), fun hc => absurd hc.1 h⟩

/-- The uniform speed is a matter of the ends alone. -/
theorem setSpeed_spec {m n : SpeedMap α} {speed : α} (h : m.setSpeed speed = .ok n) :
    n.outline = m.outline ∧ (m.Sound → n.Sound) := by
  unfold setSpeed checkSpeed at h
  by_cases hspeed : Scalar.isPositive speed = true
  · rw [if_pos hspeed] at h
    cases hplain : m.isPlain with
    | true =>
        rw [hplain] at h
        cases h
        -- A plain map takes the speed at both ends.
        exact ⟨rfl, fun hm => hm.of_outline rfl hspeed hspeed⟩
    | false =>
        rw [hplain] at h
        cases h
        exact ⟨rfl, fun hm => hm.of_outline rfl hspeed (forall_mem_points.mp hm.speed).2.2⟩
  · rw [if_neg hspeed] at h
    cases h

end Edits

end SpeedMap

end Retime
