import Retime.Proofs.DoubleValue
import Retime.Proofs.PreviewRate

/-!
# The Pair That Drives

Of the pairs that play at a time the first shortest one decides.

The store looks for it in one walk over the pairs that play, and keeps the best
so far with its span. What the walk has seen by then falls into three parts:
pairs that are longer than the best, the best itself, and pairs that are no
shorter. A pair that is shorter than the best is shorter than all of them, so it
becomes the best with the whole walk in front of it; any other pair joins those
behind. The best is therefore the first among the shortest at every point of the
walk, and as the walk meets the places in their order, so it is in the store.

Spans are differences of doubles, which may be infinite although both markers
are finite. They are numbers all the same, and among numbers, infinite or not, one
of two is below the other or they are equal.

## Main definitions

* `Store.FirstShortest`: A place with the first of the shortest pairs that play.

## Theorems

* `Store.foldl_shorter_split`: What the walk has seen falls into three parts.
* `Store.FirstShortest.unique`: There is one such place at most.
* `driving_pair_is_first_shortest`: The pair that drives is the first shortest.
-/

namespace Retime

/-- The span of a pair is a number. -/
theorem Pair.not_isNaN_span {p : Pair Float} (hp : p.map.Sound) :
    p.span.toModel.unpack.isNaN = false :=
  Double.not_isNaN_sub hp.finite_stop hp.finite_start

namespace Store

/-- The pair at a place plays at a time. No pair that plays then is shorter, and
    all of them at places in front are longer. -/
def FirstShortest {α : Type} [Scalar α] (s : Store α) (time : α) (i : Nat) : Prop :=
  ∃ p, s.Drives time i p ∧ (∀ j q, s.Drives time j q → ¬ q.span < p.span) ∧
    ∀ j q, j < i → s.Drives time j q → p.span < q.span

variable {s : Store Float} {time : Float}

/-- What the walk has seen falls into longer pairs, the best one, and pairs that
    are no shorter. -/
theorem foldl_shorter_split {ps : List (Pair Float × Nat)}
    (hsound : ∀ q ∈ ps, q.1.map.Sound) {i : Nat} {span : Float}
    (h : ps.foldl (fun best (p, i) => shorter best (i, p.span)) none = some (i, span)) :
    ∃ front p back, ps = front ++ (p, i) :: back ∧ span = p.span ∧
      (∀ q ∈ front, p.span < q.1.span) ∧ ∀ q ∈ back, p.span ≤ q.1.span := by
  induction ps using List.reverseRecOn generalizing i span with
  | nil => cases h
  | append_singleton ps q ih =>
      obtain ⟨q, j⟩ := q
      rcases List.forall_mem_append.mp hsound with ⟨hps, hlast⟩
      have hq : q.map.Sound := hlast (q, j) (List.mem_singleton.mpr rfl)
      rw [List.foldl_concat] at h
      cases hbest : ps.foldl (fun best (p, i) => shorter best (i, p.span)) none with
      | none =>
          -- Only the first pair finds no best in front of it.
          have hnil : ps = [] := by
            by_contra hne
            have hsome := foldl_shorter_isSome ps none (Or.inr hne)
            rw [hbest] at hsome
            cases hsome
          rw [hbest] at h
          cases h
          subst hnil
          exact ⟨[], q, [], rfl, rfl, (fun _ hr => nomatch hr), fun _ hr => nomatch hr⟩
      | some best =>
          obtain ⟨k, kept⟩ := best
          rcases ih hps hbest with ⟨front, p, back, hsplit, hkept, hfront, hback⟩
          have hp : p.map.Sound := hps (p, k) (hsplit ▸ List.mem_append_right _ List.mem_cons_self)
          subst hkept
          rw [hbest] at h
          change (if p.span ≤ q.span then some (k, p.span) else some (j, q.span)) = _ at h
          by_cases hle : p.span ≤ q.span
          · rw [if_pos hle] at h
            cases h
            refine ⟨front, p, back ++ [(q, j)], ?_, rfl, hfront, fun r hr => ?_⟩
            · rw [hsplit, List.append_assoc, List.cons_append]
            · rcases List.mem_append.mp hr with hr | hr
              · exact hback r hr
              · rw [List.mem_singleton.mp hr]
                exact hle
          -- A pair that is shorter than the best is shorter than all there were.
          · rw [if_neg hle] at h
            cases h
            have hlt := Double.lt_of_not_le_number (Pair.not_isNaN_span hp)
              (Pair.not_isNaN_span hq) hle
            refine ⟨ps, q, [], rfl, rfl, fun r hr => ?_, fun _ hr => nomatch hr⟩
            rw [hsplit, List.mem_append, List.mem_cons] at hr
            rcases hr with hr | rfl | hr
            · exact Double.lt_of_lt_of_le hlt (OrderedScalar.le_of_lt (hfront r hr))
            · exact hlt
            · exact Double.lt_of_lt_of_le hlt (hback r hr)

/-- The pairs that play are met in the order of their places. -/
theorem pairwise_active (s : Store Float) (time : Float) :
    (s.pairs.zipIdx.filter fun (p, _) => p.contains time).Pairwise fun a b => a.2 < b.2 := by
  refine List.Pairwise.filter _ (List.pairwise_iff_getElem.mpr fun i j hi hj hij => ?_)
  rw [List.getElem_zipIdx, List.getElem_zipIdx]
  omega

theorem firstShortest_of_shortestAt (hsound : ∀ p ∈ s.pairs, p.map.Sound) {i : Nat}
    (h : s.shortestAt time = some i) : s.FirstShortest time i := by
  rcases Option.map_eq_some_iff.mp h with ⟨⟨i, span⟩, hfold, rfl⟩
  have hactive : ∀ q ∈ s.pairs.zipIdx.filter fun (p, _) => p.contains time, q.1.map.Sound :=
    fun q hq => hsound q.1 (List.fst_mem_of_mem_zipIdx (List.mem_of_mem_filter hq))
  rcases foldl_shorter_split hactive hfold with ⟨front, p, back, hsplit, -, hfront, hback⟩
  have hmem : ∀ {j q}, s.Drives time j q ↔ (q, j) ∈ front ++ (p, i) :: back := by
    intro j q
    rw [← hsplit, mem_active_iff]
  have hplaces := pairwise_active s time
  rw [hsplit, List.pairwise_append, List.pairwise_cons] at hplaces
  refine ⟨p, hmem.mpr (List.mem_append_right _ List.mem_cons_self), fun j q hq hlt => ?_,
    fun j q hji hq => ?_⟩
  · rcases List.mem_append.mp (hmem.mp hq) with hq | hq
    · have hlonger : p.span < q.span := hfront (q, j) hq
      exact Double.lt_irrefl q.span
        (Double.lt_of_lt_of_le hlt (OrderedScalar.le_of_lt hlonger))
    · rcases List.mem_cons.mp hq with heq | hq
      · cases heq
        exact Double.lt_irrefl p.span hlt
      · exact Double.lt_irrefl q.span (Double.lt_of_lt_of_le hlt (hback (q, j) hq))
  -- A place in front of the best is met in front of it.
  · rcases List.mem_append.mp (hmem.mp hq) with hq | hq
    · exact hfront (q, j) hq
    · rcases List.mem_cons.mp hq with heq | hq
      · cases heq
        exact absurd hji (Nat.lt_irrefl _)
      · exact absurd (hplaces.2.1.1 _ hq) (Nat.lt_asymm hji)

/-- There is one place at most with the first of the shortest pairs. -/
theorem FirstShortest.unique {i j : Nat} (hi : s.FirstShortest time i)
    (hj : s.FirstShortest time j) : i = j := by
  rcases hi with ⟨p, hp, hmin, hfirst⟩
  rcases hj with ⟨q, hq, hmin', hfirst'⟩
  rcases Nat.lt_trichotomy i j with hlt | heq | hlt
  · exact absurd (hfirst' i p hlt hp) (hmin j q hq)
  · exact heq
  · exact absurd (hfirst j q hlt hq) (hmin' i p hp)

end Store

/-- In a store of sound pairs a time is driven by no pair if no pair contains it,
    and a time that is no number is contained in none. Otherwise the place that is
    returned is the one of a pair that contains the time, such that no pair that
    contains it has a smaller span and all such pairs in front of it have larger
    ones. There is no second place of which that is true. -/
theorem driving_pair_is_first_shortest (store : Store Float)
    (hsound : ∀ p ∈ store.pairs, p.map.flaw? = none) (time : Float) :
    (store.shortestAt time = none ↔ ∀ p ∈ store.pairs, ¬ (p.start ≤ time ∧ time ≤ p.stop)) ∧
    (¬ time ≤ time → store.shortestAt time = none) ∧
    ∀ i, store.shortestAt time = some i ↔
      ∃ p, store.pairs[i]? = some p ∧ (p.start ≤ time ∧ time ≤ p.stop) ∧
        (∀ q ∈ store.pairs, q.start ≤ time ∧ time ≤ q.stop → ¬ q.span < p.span) ∧
        ∀ j q, j < i → store.pairs[j]? = some q → q.start ≤ time ∧ time ≤ q.stop →
          p.span < q.span := by
  have hmaps : ∀ p ∈ store.pairs, p.map.Sound :=
    fun p hp => (SpeedMap.flaw?_eq_none_iff _).mp (hsound p hp)
  have hcontains : ∀ p : Pair Float,
      p.contains time = true ↔ p.start ≤ time ∧ time ≤ p.stop := by
    intro p
    rw [Pair.contains, Bool.and_eq_true_iff, decide_eq_true_iff, decide_eq_true_iff]
  have hidle : store.shortestAt time = none ↔
      ∀ p ∈ store.pairs, ¬ (p.start ≤ time ∧ time ≤ p.stop) := by
    simp only [Store.shortestAt_eq_none_iff, ← hcontains, Bool.not_eq_true]
  -- The place that is found has the property, and only one place can have it.
  have hplace : ∀ i, store.shortestAt time = some i ↔ store.FirstShortest time i := by
    intro i
    refine ⟨Store.firstShortest_of_shortestAt hmaps, fun hi => ?_⟩
    cases hshortest : store.shortestAt time with
    | none =>
        rcases hi with ⟨p, hp, -⟩
        exact absurd ((hcontains p).mp hp.2) (hidle.mp hshortest p (List.mem_of_getElem? hp.1))
    | some j => rw [(Store.firstShortest_of_shortestAt hmaps hshortest).unique hi]
  refine ⟨hidle, fun hnumber => hidle.mpr fun p hp h => hnumber (Double.le_self_of_le h.2).1,
    fun i => (hplace i).trans ⟨?_, ?_⟩⟩
  · rintro ⟨p, hp, hmin, hfirst⟩
    refine ⟨p, hp.1, (hcontains p).mp hp.2, fun q hq hin => ?_, fun j q hj hq hin => ?_⟩
    · rcases List.getElem?_of_mem hq with ⟨j, hj⟩
      exact hmin j q ⟨hj, (hcontains q).mpr hin⟩
    · exact hfirst j q hj ⟨hq, (hcontains q).mpr hin⟩
  · rintro ⟨p, hp, hin, hmin, hfirst⟩
    refine ⟨p, ⟨hp, (hcontains p).mpr hin⟩, fun j q hq => ?_, fun j q hj hq => ?_⟩
    · exact hmin q (List.mem_of_getElem? hq.1) ((hcontains q).mp hq.2)
    · exact hfirst j q hj hq.1 ((hcontains q).mp hq.2)

/-- Four pairs around one time: a long one, two of one span, and one whose span is
    infinite. -/
def crowdedStore : Store Float where
  pairs := [
    .ofMap (.plain 0.0 10.0 1.0) .full,
    .ofMap (.plain (-1e308) 1e308 1.0) .full,
    .ofMap (.plain 4.0 6.0 2.0) .full,
    .ofMap (.plain 5.0 7.0 0.5) .full]
  parked := .empty Parked.storeLimit
  pending := none
  grid := ⟨30.0⟩
  engine := ⟨30.0⟩

/-- The first of the two shortest drives, and none does at a time that is no
    number. -/
theorem driving_pair_is_first_shortest_crowded :
    (∀ p ∈ crowdedStore.pairs, p.map.flaw? = none) ∧
      crowdedStore.shortestAt 5.5 = some 2 ∧
      (∀ q ∈ crowdedStore.pairs, q.start ≤ 5.5 ∧ (5.5 : Float) ≤ q.stop → ¬ q.span < 2.0) ∧
      crowdedStore.shortestAt (0.0 / 0.0) = none := by
  have hsound : ∀ p ∈ crowdedStore.pairs, p.map.flaw? = none := by decide +kernel
  have hshortest : crowdedStore.shortestAt 5.5 = some 2 := by decide +kernel
  have hdriving := (driving_pair_is_first_shortest crowdedStore hsound 5.5).2.2 2
  rcases hdriving.mp hshortest with ⟨p, hp, -, hmin, -⟩
  cases hp
  exact ⟨hsound, hshortest, hmin,
    (driving_pair_is_first_shortest crowdedStore hsound (0.0 / 0.0)).2.1 (by decide)⟩

end Retime
