import Retime.Proofs.ClipLength
import Retime.Proofs.StoredPairs
import Retime.Preview.Tick

/-!
# Previews and Exports Agree

The preview of a pair plays at the speed that its export has.

Both have to find out whether speed maps are applied and what speeds are
rounded to, and they ask in different ways. The export lays the options of the
pair over those of the session, and looks at the result. The preview asks for
the two options it needs, one by one. Where maps are not applied the two differ
in kind as well: the export makes a map of two points, and the preview has no
map at all and takes the speed at the start. They meet in the sampler, which
gives a map of two points and one speed that speed at every time.

The pair that decides is the shortest one that is playing. It is found by its
place, so it has to be shown that there is a pair at that place.

## Main definitions

* `Store.Drives`: A pair at a place that a preview goes by.

## Theorems

* `Store.drives_of_shortestAt`: The place of the shortest pair has a pair that
  is playing.
* `Store.shortestAt_eq_none_iff`: There is none if no pair is playing.
* `SpeedMap.sample_plain`: A map of one speed has it everywhere.
* `preview_matches_export`: The preview plays what is exported.
-/

namespace Retime

namespace Store

variable {α : Type} [Scalar α] {s : Store α} {time : α}

/-- The pair at a place contains a time, so that a preview may go by it. -/
def Drives (s : Store α) (time : α) (i : Nat) (p : Pair α) : Prop :=
  s.pairs[i]? = some p ∧ p.contains time = true

theorem mem_active_iff {p : Pair α} {i : Nat} :
    (p, i) ∈ (s.pairs.zipIdx.filter fun (p, _) => p.contains time) ↔ s.Drives time i p := by
  rw [List.mem_filter, List.mem_zipIdx_iff_getElem?]
  rfl

/-- Going through pairs finds one of them, or keeps what there was. -/
theorem foldl_shorter_eq_some {ps : List (Pair α × Nat)} {best : Option (Nat × α)} {i : Nat}
    {span : α} (h : ps.foldl (fun best (p, i) => shorter best (i, p.span)) best = some (i, span)) :
    best = some (i, span) ∨ ∃ p, (p, i) ∈ ps := by
  induction ps generalizing best with
  | nil => exact Or.inl h
  | cons q ps ih =>
      obtain ⟨q, j⟩ := q
      rcases ih h with hbest | ⟨p, hp⟩
      -- The best so far is the one before or the one that was just looked at.
      · change shorter best (j, q.span) = some (i, span) at hbest
        unfold shorter at hbest
        split at hbest
        · next k kept =>
            by_cases hle : kept ≤ q.span
            · rw [if_pos hle] at hbest
              exact Or.inl hbest
            · rw [if_neg hle] at hbest
              cases hbest
              exact Or.inr ⟨q, List.mem_cons_self⟩
        · cases hbest
          exact Or.inr ⟨q, List.mem_cons_self⟩
      · exact Or.inr ⟨p, List.mem_cons_of_mem _ hp⟩

/-- Once there is a best pair there is one at the end. -/
theorem foldl_shorter_isSome (ps : List (Pair α × Nat)) (best : Option (Nat × α))
    (h : best.isSome = true ∨ ps ≠ []) :
    (ps.foldl (fun best (p, i) => shorter best (i, p.span)) best).isSome = true := by
  induction ps generalizing best with
  | nil =>
      rcases h with h | h
      · exact h
      · exact absurd rfl h
  | cons q ps ih =>
      refine ih _ (Or.inl ?_)
      -- Whatever is kept, something is after the first pair, so the first hypothesis
      -- holds from there.
      change (shorter best (q.2, q.1.span)).isSome = true
      unfold shorter
      cases best with
      | none => rfl
      | some kept =>
          by_cases hle : kept.2 ≤ q.1.span
          · simp [hle]
          · simp [hle]

/-- The place of the shortest pair has a pair, and it is playing. -/
theorem drives_of_shortestAt {i : Nat} (h : s.shortestAt time = some i) :
    ∃ p, s.Drives time i p := by
  rcases Option.map_eq_some_iff.mp h with ⟨⟨j, span⟩, hfold, rfl⟩
  rcases foldl_shorter_eq_some hfold with hnone | ⟨p, hp⟩
  · cases hnone
  · exact ⟨p, mem_active_iff.mp hp⟩

/-- There is no shortest pair if no pair is playing. -/
theorem shortestAt_eq_none_iff :
    s.shortestAt time = none ↔ ∀ p ∈ s.pairs, p.contains time = false := by
  unfold shortestAt
  rw [Option.map_eq_none_iff]
  constructor
  · intro hnone p hp
    by_contra hplaying
    rcases List.getElem?_of_mem hp with ⟨i, hi⟩
    have hactive := mem_active_iff.mpr ⟨hi, Bool.eq_true_of_not_eq_false hplaying⟩
    -- A pair that is playing would leave the search with something.
    have hsome := foldl_shorter_isSome _ none (Or.inr (List.ne_nil_of_mem hactive))
    rw [hnone] at hsome
    cases hsome
  · intro hidle
    have hnil : (s.pairs.zipIdx.filter fun (p, _) => p.contains time) = [] := by
      rw [List.filter_eq_nil_iff]
      intro q hq hplaying
      change q.1.contains time = true at hplaying
      rw [hidle q.1 (List.fst_mem_of_mem_zipIdx hq)] at hplaying
      cases hplaying
    rw [hnil]
    rfl

end Store

namespace SpeedMap

/-- A map of two points with one speed has it at every time. -/
theorem sample_plain {start stop speed : Float} (hspeed : speed.isFinite = true)
    (how : Sampling Float) (time : Float) : (plain start stop speed).sample how time = speed := by
  have hplain : (plain start stop speed).isPlain = true := by
    change (true && (speed == speed)) = true
    rw [Bool.true_and]
    exact Double.beq_self hspeed
  unfold sample
  rw [if_pos hplain]
  rfl

end SpeedMap

namespace Pair

/-- The map that the export applies is sampled to the speed that the preview
    asks for. -/
theorem sample_effectiveMap {p : Pair Float} (hp : p.map.Sound) (speedMaps : Bool)
    (how : Sampling Float) (time : Float) :
    ∃ m, p.effectiveMap speedMaps = .ok m ∧
      m.sample how time = if speedMaps then p.map.sample how time else p.speed := by
  cases speedMaps with
  | true => exact ⟨p.map, rfl, rfl⟩
  | false =>
      have hspeed := hp.speed p.map.first List.mem_cons_self
      -- Without speed maps the export makes a map of two
      -- points, which a sound pair has the ends for.
      have hok : SpeedMap.constant p.start p.stop p.speed = .ok (.plain p.start p.stop p.speed) :=
        SpeedMap.ofList_sound (hp.plain hspeed)
      refine ⟨.plain p.start p.stop p.speed, ?_, ?_⟩
      · unfold effectiveMap
        rw [if_neg Bool.false_ne_true, hok]
      · exact SpeedMap.sample_plain (Bool.and_eq_true_iff.mp hspeed).1 how time

/-- The options that a preview asks for are the ones that are resolved. -/
theorem preview_options {α : Type} [Scalar α] (p : Pair α) (s : Settings α) (kbps : Option α) :
    (p.resolve s kbps).speedMaps = s.speedMapsFor p.overrides ∧
      (p.resolve s kbps).speedRounding = s.roundingFor p.overrides :=
  ⟨rfl, rfl⟩

end Pair

section Rate

variable (session : Session Float) {store : Store Float} (settings : Settings Float) {now : Float}

theorem rateAt_idle (h : store.shortestAt now = none) :
    rateAt session store settings now = 1.0 := by
  unfold rateAt
  rw [h]
  rfl

theorem rateAt_driven {i : Nat} {p : Pair Float} (h : store.shortestAt now = some i)
    (hp : store.Drives now i p) :
    rateAt session store settings now =
      if settings.speedMapsFor p.overrides then
        p.map.sample ⟨session.easing, settings.roundingFor p.overrides, session.precision⟩ now
      else p.speed := by
  unfold rateAt
  rw [h, Option.bind_some, hp.1]

end Rate

/-- Where the shortest pair that is playing is a pair `p`, the rate of the
    preview is the speed of the map that the export of `p` applies, looked up
    with the rounding that the export resolves, whatever is set at the two
    levels and whatever the bitrate of the source is. Where no pair is playing
    it is one. This is the rate that a tick compares with the last one and tells
    the player. -/
theorem preview_matches_export (session : Session Float) (store : Store Float)
    (settings : Settings Float) (kbps : Option Float) (now : Float)
    (hsound : ∀ p ∈ store.pairs, p.map.flaw? = none) :
    (match store.shortestAt now with
      | some i => ∃ p m, store.Drives now i p ∧
          p.effectiveMap (p.resolve settings kbps).speedMaps = .ok m ∧
          rateAt session store settings now =
            m.sample ⟨session.easing, (p.resolve settings kbps).speedRounding,
              session.precision⟩ now
      | none => (∀ p ∈ store.pairs, p.contains now = false) ∧
          rateAt session store settings now = 1.0) ∧
    ∃ reset, (duckingTick session store settings now).calls =
      (if rateAt session store settings now != session.rate then
        [.rate (rateAt session store settings now)] else []) ++ reset ∧
      reset = if session.ducking then [] else [.rate 1.0] := by
  constructor
  · cases hshortest : store.shortestAt now with
    | none =>
        exact ⟨Store.shortestAt_eq_none_iff.mp hshortest, rateAt_idle session settings hshortest⟩
    | some i =>
        rcases Store.drives_of_shortestAt hshortest with ⟨p, hp⟩
        have hmap : p.map.Sound :=
          (SpeedMap.flaw?_eq_none_iff _).mp (hsound p (List.mem_of_getElem? hp.1))
        -- The preview looks the two options up by itself, and finds what the export resolves.
        rcases p.preview_options settings kbps with ⟨hmaps, hrounding⟩
        rcases Pair.sample_effectiveMap hmap (p.resolve settings kbps).speedMaps
          ⟨session.easing, (p.resolve settings kbps).speedRounding, session.precision⟩ now with
          ⟨m, hm, hsample⟩
        refine ⟨p, m, hp, hm, ?_⟩
        rw [rateAt_driven session settings hshortest hp, hsample, hmaps, hrounding]
  · refine ⟨_, ?_, rfl⟩
    unfold duckingTick
    cases session.ducking with
    | true => exact (List.append_nil _).symm
    | false => rfl

/-- A pair within another, with maps turned off and a rounding that is no
    number. -/
def nestedStore : Store Float where
  pairs := [
    .ofMap ⟨⟨0.0, 1.0⟩, [], ⟨10.0, 2.0⟩⟩ .full,
    { Pair.ofMap ⟨⟨4.0, 0.5⟩, [], ⟨6.0, 1.5⟩⟩ .full with
      overrides := { speedMaps := some false, speedRounding := some (0.0 / 0.0) } }]
  parked := .empty Parked.storeLimit
  pending := none
  grid := ⟨30.0⟩
  engine := ⟨30.0⟩

/-- In the inner pair the speed at its start is played throughout. -/
theorem preview_matches_export_nested :
    nestedStore.shortestAt 5.0 = some 1 ∧
      ∃ p m, nestedStore.Drives 5.0 1 p ∧ p.effectiveMap false = .ok m ∧
        rateAt .initial nestedStore .initial 5.0 = m.sample ⟨.linear, 0.05, 2⟩ 5.0 := by
  have hsound : ∀ p ∈ nestedStore.pairs, p.map.flaw? = none := by decide
  have hshortest : nestedStore.shortestAt 5.0 = some 1 := by decide
  have hmatch := (preview_matches_export .initial nestedStore .initial none 5.0 hsound).1
  rw [hshortest] at hmatch
  rcases hmatch with ⟨p, m, hp, hm, hrate⟩
  cases hp.1
  exact ⟨hshortest, _, m, hp, hm, hrate⟩

end Retime
