import Retime.Proofs.OneSpeed
import Retime.Proofs.Reload
import Retime.Command.Report

/-!
# Written Play Times

A document whose play times were written checks at the rate they are of.

Writing computes all play times anew, saves them with the pairs, and leaves it to
reading what comes back. Two things can come between. The map of a pair of one
speed is not saved, so what is computed again is computed of a map of two points;
in exact arithmetic the sections of a clip of one speed add up to the same, since
they meet and the last of them ends at the same frame. And a play time below zero
is not taken back. It is the time of a clip so short that its end is cut before
its start, and reading has the naive time stand in for it, which is positive. So
these clips, and no others, are found to be out of date.

In doubles the sections of a clip of one speed do not add up to the same bit by
bit, so there the pairs that keep their map are answered for.

What is saved of a pair is `Store.timed` of it, and `Pair.returned` of that is what
comes back.

## Theorems

* `Markers.staleTime_mem_iff`: The play times that are found to be out of date.
* `Pair.playTime_returned`: What comes back takes as long as what was written.
* `Command.durationsReport_saves`: The play times are computed and saved.
* `written_times_validate`: What is written is in date, if it is not negative.
* `written_times_stale`: What is negative is not.
-/

namespace Retime

variable {α : Type} [Scalar α]

/-! ### Issues of play times -/

namespace Pair

theorem timeIssue?_eq_some_iff {rate : α} {p q : Pair α} {n : Nat} {issue : Issue α} :
    timeIssue? rate p q n = some issue ↔
      timeTolerance < Scalar.abs (p.playTime - q.playTime) ∧
        .staleTime n p.playTime q.playTime rate = issue := by
  unfold timeIssue?
  by_cases hoff : timeTolerance < Scalar.abs (p.playTime - q.playTime)
  · simp [hoff]
  · simp [hoff]

/-- Play times are compared pair by pair, and pairs are counted from one. -/
theorem mem_timeIssues_iff {ps : List (Pair α)} {g : FrameGrid α} {rate : α} {issue : Issue α} :
    issue ∈ ((ps.zip (ps.map (Store.timed g))).zipWith
      (fun (stored, computed) number => timeIssue? rate stored computed number)
      (List.range' 1 ps.length)).filterMap id ↔
    ∃ i p, ps[i]? = some p ∧ timeIssue? rate p (Store.timed g p) (i + 1) = some issue := by
  rw [List.mem_filterMap]
  simp only [id]
  constructor
  · rintro ⟨x, hx, rfl⟩
    rcases List.mem_iff_getElem?.mp hx with ⟨i, hi⟩
    rcases List.getElem?_zipWith_eq_some.mp hi with ⟨⟨p, q⟩, n, hpq, hn, hx⟩
    rcases List.getElem?_zip_eq_some.mp hpq with ⟨hp, hq⟩
    -- Both rows are of one length, so the pair is compared with its own time.
    rw [List.getElem?_map, hp] at hq
    obtain rfl : Store.timed g p = q := Option.some.inj hq
    have hi : i < ps.length := (List.getElem?_eq_some_iff.mp hp).1
    rw [List.getElem?_range' hi] at hn
    cases hn
    refine ⟨i, p, hp, ?_⟩
    rw [Nat.add_comm i 1, ← Nat.one_mul i]
    exact hx
  · rintro ⟨i, p, hp, hissue⟩
    have hi : i < ps.length := (List.getElem?_eq_some_iff.mp hp).1
    refine ⟨_, List.mem_iff_getElem?.mpr ⟨i, ?_⟩, hissue⟩
    refine List.getElem?_zipWith_eq_some.mpr ⟨(p, Store.timed g p), i + 1, ?_, ?_, rfl⟩
    · refine List.getElem?_zip_eq_some.mpr ⟨hp, ?_⟩
      rw [List.getElem?_map, hp]
      rfl
    · rw [List.getElem?_range' hi, Nat.one_mul, Nat.add_comm]

/-- Nothing that a pair shows without a frame rate is about its play time. -/
theorem staleTime_notMem_issues (r : Resolution) (p : Pair α) (n number : Nat)
    (stored computed rate : α) : .staleTime number stored computed rate ∉ p.issues r n := by
  unfold issues mapIssue? cropIssue? loopIssue?
  simp only [List.mem_filterMap, List.mem_cons, List.not_mem_nil, or_false, id]
  rintro ⟨x, hx, rfl⟩
  -- Each of the three checks has an issue of its own kind.
  rcases hx with hx | hx | hx
  · split at hx
    · cases hx
    · cases hx
  · split at hx
    · cases hx
    · cases hx
  · split at hx
    · split at hx
      · cases hx
      · cases hx
    · cases hx

end Pair

omit [Scalar α] in
/-- Nothing that a merge list shows is about a play time. -/
theorem MergeGroup.staleTime_notMem_issues (group : MergeGroup) (count number : Nat)
    (stored computed rate : α) :
    .staleTime number stored computed rate ∉ group.issues (α := α) count := by
  unfold MergeGroup.issues MergeEntry.issue?
  rw [List.mem_filterMap]
  rintro ⟨e, -, he⟩
  split at he
  · cases he
  · cases he

namespace Store

/-- A store is made of pairs at any rate that is accepted, and of no other. -/
theorem ofPairs_eq_ok_iff {rate : α} {s : Store α} (ps : List (Pair α)) :
    ofPairs ps rate = .ok s ↔ ∃ g, FrameGrid.ofRate rate = .ok g ∧
      s = ⟨ps.map (timed g), .empty Parked.storeLimit, none, g, g⟩ := by
  unfold ofPairs empty gridOf
  -- Only the rate can be refused.
  cases hrate : (FrameGrid.ofRate rate : Except (TimingError α) (FrameGrid α)) with
  | error cause =>
      constructor
      · intro h
        cases h
      · rintro ⟨g, hg, -⟩
        cases hg
  | ok g =>
      constructor
      · intro h
        cases h
        exact ⟨g, rfl, rfl⟩
      · rintro ⟨g', hg, rfl⟩
        cases hg
        rfl

end Store

/-- The play times that are found to be out of date at a rate: those that are not
    the ones of the maps. -/
theorem Markers.staleTime_mem_iff {d : Markers α} {rate : α} {g : FrameGrid α}
    (hg : FrameGrid.ofRate rate = .ok g) :
    ∃ issues, d.issues rate = .ok issues ∧ ∀ number stored computed r,
      .staleTime number stored computed r ∈ issues ↔
        ∃ i p, d.pairs[i]? = some p ∧ number = i + 1 ∧ stored = p.playTime ∧
          computed = g.playTime p.map ∧ r = rate ∧
          Pair.timeTolerance < Scalar.abs (p.playTime - g.playTime p.map) := by
  have hstore := (Store.ofPairs_eq_ok_iff d.pairs).mpr ⟨g, hg, rfl⟩
  unfold Markers.issues
  rw [hstore]
  refine ⟨_, rfl, fun number stored computed r => ?_⟩
  rw [List.mem_append, List.mem_append]
  dsimp only
  rw [Pair.mem_timeIssues_iff]
  constructor
  -- Only the comparison of play times makes such an issue.
  · rintro ((hmem | ⟨i, p, hp, hissue⟩) | hmem)
    · rcases List.mem_flatten.mp hmem with ⟨l, hl, hmem⟩
      rcases List.mem_iff_getElem?.mp hl with ⟨i, hi⟩
      rcases List.getElem?_zipWith_eq_some.mp hi with ⟨p, n, -, -, rfl⟩
      exact absurd hmem (p.staleTime_notMem_issues _ _ _ _ _ _)
    · rcases Pair.timeIssue?_eq_some_iff.mp hissue with ⟨hoff, hsame⟩
      cases hsame
      exact ⟨i, p, hp, rfl, rfl, rfl, rfl, hoff⟩
    · rcases List.mem_flatMap.mp hmem with ⟨group, -, hmem⟩
      exact absurd hmem (group.staleTime_notMem_issues _ _ _ _ _)
  · rintro ⟨i, p, hp, rfl, rfl, rfl, rfl, hoff⟩
    exact Or.inl (Or.inr ⟨i, p, hp, Pair.timeIssue?_eq_some_iff.mpr ⟨hoff, rfl⟩⟩)

/-! ### Pairs that come back -/

/-- All pairs of a store come back from their records. -/
theorem Store.mapM_records [OrderedScalar α] (g : FrameGrid α) (ps : List (Pair α))
    (h : ∀ p ∈ ps, p.map.Sound ∧ p.map.OnMarkers) :
    (ps.map (timed g)).mapM (fun p => Pair.ofRecord p.toRecord) =
      .ok (ps.map fun p => (timed g p).returned) := by
  rw [mapM_ok_iff, List.forall₂_map_left_iff, List.forall₂_map_right_iff, List.forall₂_same]
  intro p hp
  rcases h p hp with ⟨hsound, hon⟩
  exact Pair.ofRecord_toRecord (p := timed g p) hsound hon

/-! ### Exact arithmetic -/

section Exact

open Exact

/-- The map that comes back takes as long as the one that was written. -/
theorem Pair.playTime_returned (g : FrameGrid ℝ) {p : Pair ℝ} (hp : p.map.Sound) :
    g.playTime p.returned.map = g.playTime p.map := by
  unfold returned
  dsimp only
  by_cases hvariable : p.map.isVariable = true
  · rw [if_pos hvariable]
  · rw [if_neg hvariable]
    exact g.playTime_plain hp (SpeedMap.level_of_constant (Bool.eq_false_iff.mpr hvariable))

theorem Pair.naiveTime_pos {p : Pair ℝ} (hp : p.map.Sound) : 0 < p.naiveTime :=
  div_pos (sub_pos.mpr (not_le.mp hp.span))
    ((isPositive_iff _).mp (hp.speed _ List.mem_cons_self))

/-- A play time that was written is in date if it is not negative. -/
theorem Pair.timeTolerance_lt_iff (g : FrameGrid ℝ) {p : Pair ℝ} (hp : p.map.Sound) :
    let q := (Store.timed g p).returned
    timeTolerance < Scalar.abs (q.playTime - g.playTime q.map) ↔ g.playTime p.map < 0 := by
  intro q
  have hmap : g.playTime q.map = g.playTime p.map := playTime_returned (p := Store.timed g p) g hp
  have htolerance : (timeTolerance : ℝ) = 1e-9 := rfl
  rw [hmap, abs_eq, htolerance]
  by_cases hle : 0 ≤ g.playTime p.map
  · have htime : q.playTime = g.playTime p.map :=
      returned_playTime_of_le (p := Store.timed g p) rfl (by rwa [decimal_zero])
    rw [htime, sub_self, abs_zero]
    norm_num
    exact hle
  -- The naive time is positive, and a time below zero is so by a millisecond.
  · have hneg : g.playTime p.map < 0 := not_le.mp hle
    have htime : q.playTime = p.naiveTime :=
      returned_playTime_of_not_le (p := Store.timed g p) (by rwa [decimal_zero])
    have hmillis : g.playTime p.map ≤ -1 / 1000 := by
      have hheld : g.playTime p.map = _ := FrameGrid.heldTime_eq g _
      rw [hheld] at hneg ⊢
      generalize nearest _ = millis at hneg ⊢
      rw [div_lt_iff₀ (by norm_num), zero_mul, Int.cast_lt_zero] at hneg
      have hcast : (millis : ℝ) ≤ -1 := by exact_mod_cast Int.le_sub_one_of_lt hneg
      linarith
    have hnaive := naiveTime_pos hp
    rw [htime, abs_of_pos (by linarith)]
    norm_num
    exact ⟨fun _ => hneg, fun _ => by linarith⟩

end Exact

/-! ### Documents -/

/-- A computation that gives something for each value of a list gives a list. -/
theorem exists_mapM_ok {ε β γ : Type} {f : β → Except ε γ} {bs : List β}
    (h : ∀ b ∈ bs, ∃ c, f b = .ok c) : ∃ cs, bs.mapM f = .ok cs := by
  rcases exists_forall₂ (R := fun b c => f b = .ok c) h with ⟨cs, hcs⟩
  exact ⟨cs, mapM_ok_iff.mpr hcs⟩

namespace Command

/-- There are lines about the duration of a pair. -/
theorem durationLines_ok {p : Pair Float} (hp : p.map.Sound) (g : FrameGrid Float)
    (breakdown : Bool) (t : PairTiming Float) (index : Nat) :
    ∃ ls, durationLines g breakdown p t index = .ok ls := by
  rcases Pair.effectiveMap_eq_ok hp t.speedMaps with ⟨m, hm, -⟩
  unfold durationLines
  rw [hm]
  cases breakdown with
  | true => exact ⟨_, rfl⟩
  | false => exact ⟨_, rfl⟩

/-- The report of the durations saves the document with the play times of a
    store, whatever it has to say of them. -/
theorem durationsReport_saves (file : String) {d : Markers Float} {rate : Float}
    (breakdown : Bool) {store : Store Float} (hstore : Store.ofPairs d.pairs rate = .ok store)
    (hsound : ∀ p ∈ store.pairs, p.map.Sound) :
    ∃ report, durationsReport file d rate breakdown true = .ok report ∧
      ∃ after, report.ending = .saves (store.writeTo d) after := by
  -- All maps are sound, so every pair has a timing and its lines.
  have htimings : ∃ ts, store.pairs.mapM (fun p =>
      EditError.liftTiming (p.timing (p.resolve d.settings none) store.grid)) = .ok ts := by
    refine exists_mapM_ok fun p hp => ?_
    rcases Pair.effectiveMap_eq_ok (hsound p hp) (p.resolve d.settings none).speedMaps with
      ⟨m, hm, -⟩
    rcases Pair.timing_of_map hm store.grid with ⟨t, ht, -⟩
    rw [ht]
    exact ⟨t, rfl⟩
  rcases htimings with ⟨ts, hts⟩
  have hlines : ∃ ls, (store.pairs.zip ts).zipIdx.mapM (fun c =>
      durationLines store.grid breakdown c.1.1 c.1.2 c.2) = .ok ls := by
    refine exists_mapM_ok fun c hc => ?_
    have hpair := (List.of_mem_zip (List.fst_mem_of_mem_zipIdx hc)).1
    exact durationLines_ok (hsound _ hpair) _ _ _ _
  rcases hlines with ⟨ls, hls⟩
  unfold durationsReport
  rw [hstore]
  exact ⟨_, bind_ok_iff.mpr ⟨store, rfl, bind_ok_iff.mpr ⟨ts, hts, bind_ok_iff.mpr ⟨ls, hls, rfl⟩⟩⟩,
    _, rfl⟩

end Command

/-- A document that was read can be written with other play times, and at any
    time of day. -/
theorem Markers.Stored.writable_timed {d : Markers Float} (hd : d.Stored) (g : FrameGrid Float)
    (time : String) :
    ({ d with pairs := d.pairs.map (Store.timed g) } : Markers Float).stamped time |>.Writable where
  settings := hd.settings
  extra := hd.extra
  pairs := List.forall_mem_map.mpr fun p hp =>
    ⟨(hd.pairs p hp).sound, (hd.pairs p hp).overrides, (hd.pairs p hp).loop⟩

/-- A pair that keeps its map and its play time is in date. -/
theorem Pair.not_timeTolerance_lt {g : FrameGrid Float} {p : Pair Float} (hp : p.map.Sound)
    (hfinite : (g.playTime p.map).isFinite = true) (hle : (0.0 : Float) ≤ g.playTime p.map)
    (hmap : p.map.isVariable = true ∨ p.map.points.length = 2) :
    let q := (Store.timed g p).returned
    ¬ timeTolerance < Scalar.abs (q.playTime - g.playTime q.map) := by
  intro q
  -- A map of one speed is read back as two points, which is what it was.
  have hsame : q.map = p.map := by
    by_cases hvariable : p.map.isVariable = true
    · exact if_pos hvariable
    · have hplain := SpeedMap.eq_plain hp (Bool.eq_false_iff.mpr hvariable)
        (hmap.resolve_left hvariable)
      exact (if_neg hvariable).trans hplain.symm
  have htime : q.playTime = g.playTime p.map :=
    returned_playTime_of_le (p := Store.timed g p) hfinite hle
  have hnear : ¬ (timeTolerance : Float) < Scalar.abs 0.0 := by decide
  rwa [hsame, htime, Double.sub_self_eq_zero hfinite]

/-- What is saved with the play times of its pairs is read again, and the pairs
    are in date that keep their maps and whose play times are finite and not
    negative. -/
theorem Markers.Stored.saved_in_date {d : Markers Float} (hd : d.Stored) {rate : Float}
    {g : FrameGrid Float} (hg : FrameGrid.ofRate rate = .ok g) (time : String)
    (hreals : (stamped { d with pairs := d.pairs.map (Store.timed g) } time).toJson.Faithful) :
    ∃ e issues, parse (stamped { d with pairs := d.pairs.map (Store.timed g) } time).text = .ok e ∧
      e.settings = d.settings ∧
      (d.pairs.map (Store.timed g)).mapM (fun p => Pair.ofRecord p.toRecord) = .ok e.pairs ∧
      e.issues rate = .ok issues ∧
      ∀ i p, (d.pairs.map (Store.timed g))[i]? = some p → p.playTime.isFinite = true →
        0.0 ≤ p.playTime → p.map.isVariable = true ∨ p.map.points.length = 2 →
        ∀ stored computed r, .staleTime (i + 1) stored computed r ∉ issues := by
  have hsound : ∀ p ∈ d.pairs, p.map.Sound := fun p hp => (hd.pairs p hp).sound
  have hrecords := Store.mapM_records g d.pairs fun p hp => ⟨hsound p hp, (hsound p hp).onMarkers⟩
  let e := (stamped { d with pairs := d.pairs.map (Store.timed g) } time).returned
  have hpairs : e.pairs = d.pairs.map fun p => (Store.timed g p).returned := List.map_map
  rcases staleTime_mem_iff (d := e) hg with ⟨issues, hissues, hmem⟩
  refine ⟨e, issues, (hd.writable_timed g time).parse_text hreals, rfl, ?_, hissues, ?_⟩
  · rw [hpairs]
    exact hrecords
  · intro i q hq hfinite hle hmap stored computed r hstale
    -- The issue is about the pair that came back in the place of this one.
    rcases (hmem _ _ _ _).mp hstale with ⟨j, q', hq', hj, -, -, -, hoff⟩
    obtain rfl : i = j := Nat.succ.inj hj
    rw [List.getElem?_map] at hq
    rcases Option.map_eq_some_iff.mp hq with ⟨p, hp, rfl⟩
    rw [hpairs, List.getElem?_map, hp] at hq'
    obtain rfl : (Store.timed g p).returned = q' := Option.some.inj hq'
    exact Pair.not_timeTolerance_lt (hsound p (List.mem_of_getElem? hp)) hfinite hle hmap hoff

/-- In exact arithmetic just those pairs are out of date that were written with a
    negative play time. -/
theorem Markers.staleTime_mem_returned_iff {ps : List (Pair ℝ)} {rate : ℝ} {g : FrameGrid ℝ}
    (hg : FrameGrid.ofRate rate = .ok g) (hsound : ∀ p ∈ ps, p.map.Sound) {e : Markers ℝ}
    (he : e.pairs = ps.map fun p => (Store.timed g p).returned) :
    ∃ issues, e.issues rate = .ok issues ∧
      ∀ number stored computed r, .staleTime number stored computed r ∈ issues ↔
        ∃ i p, (ps.map (Store.timed g))[i]? = some p ∧ p.playTime < 0 ∧ number = i + 1 ∧
          stored = p.naiveTime ∧ computed = p.playTime ∧ r = rate := by
  rcases staleTime_mem_iff (d := e) hg with ⟨issues, hissues, hmem⟩
  -- A negative time is dropped by the reader, and the naive time takes its place.
  have hnaive : ∀ p : Pair ℝ, g.playTime p.map < 0 →
      (Store.timed g p).returned.playTime = p.naiveTime := by
    intro p hneg
    refine Pair.returned_playTime_of_not_le (p := Store.timed g p) ?_
    rw [Exact.decimal_zero]
    exact not_le.mpr hneg
  have hmap : ∀ p : Pair ℝ, p.map.Sound →
      g.playTime (Store.timed g p).returned.map = g.playTime p.map :=
    fun p hp => Pair.playTime_returned (p := Store.timed g p) g hp
  refine ⟨issues, hissues, fun number stored computed r => (hmem _ _ _ _).trans ?_⟩
  constructor
  · rintro ⟨i, q, hq, hi, hstored, hcomputed, hr, hoff⟩
    rw [he, List.getElem?_map] at hq
    rcases Option.map_eq_some_iff.mp hq with ⟨p, hp, rfl⟩
    have hp' := hsound p (List.mem_of_getElem? hp)
    have hneg := (Pair.timeTolerance_lt_iff g hp').mp hoff
    refine ⟨i, Store.timed g p, ?_, hneg, hi, hstored.trans (hnaive p hneg),
      hcomputed.trans (hmap p hp'), hr⟩
    rw [List.getElem?_map, hp]
    rfl
  · rintro ⟨i, q, hq, hneg, hi, hstored, hcomputed, hr⟩
    rw [List.getElem?_map] at hq
    rcases Option.map_eq_some_iff.mp hq with ⟨p, hp, rfl⟩
    have hp' := hsound p (List.mem_of_getElem? hp)
    refine ⟨i, (Store.timed g p).returned, ?_, hi, hstored.trans (hnaive p hneg).symm,
      hcomputed.trans (hmap p hp').symm, hr, (Pair.timeTolerance_lt_iff g hp').mpr hneg⟩
    rw [he, List.getElem?_map, hp]
    rfl

/-- Writing the play times of a document computes a store of its pairs and saves
    the document with them. What is saved is read again, each pair as its record
    makes it, and is then checked at the same rate. In doubles the pairs are in
    date that keep their maps and whose play times are finite and not negative.
    In exact arithmetic, just those clips are out of date whose play times are
    negative, and the naive time stands in for them. -/
theorem written_times_validate :
    (∀ (text file time : String) (breakdown : Bool) (d : Markers Float) (rate : Float)
        (g : FrameGrid Float), Markers.parse text = .ok d → FrameGrid.ofRate rate = .ok g →
      ∃ store report after, Store.ofPairs d.pairs rate = .ok store ∧
        Command.durationsReport file d rate breakdown true = .ok report ∧
        report.ending = .saves (store.writeTo d) after ∧
        ((∀ x ∈ ((store.writeTo d).stamped time).toJson.reals, x.isFinite = true → Rereads x) →
          ∃ e issues, Markers.parse ((store.writeTo d).stamped time).text = .ok e ∧
            e.settings = d.settings ∧
            store.pairs.mapM (fun p => Pair.ofRecord p.toRecord) = .ok e.pairs ∧
            e.issues rate = .ok issues ∧
            ∀ i p, store.pairs[i]? = some p → p.playTime.isFinite = true → 0.0 ≤ p.playTime →
              p.map.isVariable = true ∨ p.map.points.length = 2 →
              ∀ stored computed r, .staleTime (i + 1) stored computed r ∉ issues)) ∧
    ∀ (ps : List (Pair ℝ)) (rate : ℝ) (g : FrameGrid ℝ), (∀ p ∈ ps, p.map.flaw? = none) →
      FrameGrid.ofRate rate = .ok g →
      ∃ store qs, Store.ofPairs ps rate = .ok store ∧
        store.pairs.mapM (fun p => Pair.ofRecord p.toRecord) = .ok qs ∧
        ∀ e : Markers ℝ, e.pairs = qs → ∃ issues, e.issues rate = .ok issues ∧
          ∀ number stored computed r, .staleTime number stored computed r ∈ issues ↔
            ∃ i p, store.pairs[i]? = some p ∧ p.playTime < 0 ∧ number = i + 1 ∧
              stored = p.naiveTime ∧ computed = p.playTime ∧ r = rate := by
  constructor
  · intro text file time breakdown d rate g hread hg
    -- What was read has sound maps, whatever the text was.
    have hd : d.Stored := (Markers.parse_stored hread).1
    have hstore := (Store.ofPairs_eq_ok_iff d.pairs).mpr ⟨g, hg, rfl⟩
    rcases Command.durationsReport_saves file breakdown hstore
      (List.forall_mem_map.mpr fun p hp => (hd.pairs p hp).sound) with
      ⟨report, hreport, after, hending⟩
    exact ⟨_, report, after, hstore, hreport, hending, hd.saved_in_date hg time⟩
  · intro ps rate g hflaw hg
    have hstore := (Store.ofPairs_eq_ok_iff ps).mpr ⟨g, hg, rfl⟩
    have hsound : ∀ p ∈ ps, p.map.Sound := fun p hp =>
      (SpeedMap.flaw?_eq_none_iff _).mp (hflaw p hp)
    have hrecords := Store.mapM_records g ps fun p hp =>
      ⟨hsound p hp, SpeedMap.onMarkers_exact p.map⟩
    exact ⟨_, _, hstore, hrecords, fun e he => Markers.staleTime_mem_returned_iff hg hsound he⟩

/-! ### A clip that is in date and one that is not -/

/-- A document with a pair of one speed. -/
def plainText : String :=
  "\x7b\"markerPairs\":[\x7b\"start\":1,\"end\":3,\"speed\":2\x7d]\x7d"

/-- Its clip takes a frame more than its pair would naively take. -/
theorem playTime_plainText :
    FrameGrid.playTime ⟨30.0⟩ (SpeedMap.plain (1.0 : Float) 3.0 2.0) = 1.033 := by
  -- The powers are unfolded by hand, their recursion not being structural.
  have hmillis : Scalar.pow (10.0 : Float) 3 = 1000.0 := by
    change Scalar.powFrom (1.0 : Float) 10.0 3 = 1000.0
    rw [Scalar.powFrom, dif_neg (by decide), Scalar.powFrom, dif_pos (by decide)]
    decide +kernel
  have hmicros : Scalar.pow (10.0 : Float) 6 = 1000000.0 := by
    change Scalar.powFrom (1.0 : Float) 10.0 6 = 1000000.0
    rw [Scalar.powFrom, dif_neg (by decide), Scalar.powFrom, dif_neg (by decide),
      Scalar.powFrom, dif_pos (by decide)]
    decide +kernel
  unfold FrameGrid.playTime FrameGrid.heldTime FrameGrid.breakdown Scalar.roundTo
  rw [hmillis, hmicros]
  decide +kernel

/-- What there is to know of the document. -/
theorem parse_plainText :
    ∃ (d : Markers Float) (p : Pair Float), Markers.parse plainText = .ok d ∧ d.pairs = [p] ∧
      p.map = .plain 1.0 3.0 2.0 ∧
      (Markers.stamped { d with pairs := [{ p with playTime := 1.033 }] } "").toJson.reals =
        [1.0, 1.0, 3.0, 2.0, 1.033] := by
  -- All facts are read off one run of the reader.
  have hrun : ((Markers.parse plainText).toOption.map fun d : Markers Float =>
      ((Markers.stamped { d with pairs := d.pairs.map fun p => { p with playTime := 1.033 } }
        "").toJson.reals,
        d.pairs.map fun p => (p.map.times, p.map.speeds))) =
      some ([1.0, 1.0, 3.0, 2.0, 1.033], [([1.0, 3.0], [2.0, 2.0])]) := by decide +kernel
  rcases Option.map_eq_some_iff.mp hrun with ⟨d, hd, hfacts⟩
  rcases Prod.mk.inj hfacts with ⟨hreals, hpairs⟩
  rcases List.map_eq_singleton_iff.mp hpairs with ⟨p, hp, hparts⟩
  have hread : Markers.parse plainText = .ok d := by
    cases hparse : (Markers.parse plainText : Except (DocumentError Float) (Markers Float)) with
    | error e => rw [hparse] at hd; cases hd
    | ok d' => rw [hparse] at hd; cases hd; rfl
  refine ⟨d, p, hread, hp, ?_, ?_⟩
  · rcases Prod.mk.inj hparts with ⟨htimes, hspeeds⟩
    exact SpeedMap.ext_of_times_speeds htimes hspeeds
  · rw [hp] at hreals
    exact hreals

/-- The play time of the document is in date after it was written, and so is that
    of the same clip in exact arithmetic. -/
theorem written_times_validate_plain :
    (∃ (d : Markers Float) (store : Store Float) (e : Markers Float) (issues : List (Issue Float)),
      Markers.parse plainText = .ok d ∧ Store.ofPairs d.pairs 30.0 = .ok store ∧
      Markers.parse ((store.writeTo d).stamped "").text = .ok e ∧ e.issues 30.0 = .ok issues ∧
      ∀ stored computed r, .staleTime 1 stored computed r ∉ issues) ∧
    ∃ (store : Store ℝ) (qs : List (Pair ℝ)),
      Store.ofPairs [.ofMap (.plain 1 3 2) .full] 30 = .ok store ∧
      store.pairs.mapM (fun p => Pair.ofRecord p.toRecord) = .ok qs ∧
      ∀ e : Markers ℝ, e.pairs = qs → ∃ issues, e.issues 30 = .ok issues ∧
        ∀ number stored computed r, .staleTime number stored computed r ∉ issues := by
  rcases written_times_validate with ⟨hdocument, hexact⟩
  constructor
  · rcases parse_plainText with ⟨d, p, hread, hp, hmap, hreals⟩
    rcases hdocument plainText "" "" false d 30.0 ⟨30.0⟩ hread rfl with
      ⟨store, -, -, hstore, -, -, hwritten⟩
    rcases (Store.ofPairs_eq_ok_iff _).mp hstore with ⟨g, hg, heq⟩
    obtain rfl : ⟨30.0⟩ = g := Except.ok.inj hg
    have hpairs : store.pairs = [{ p with playTime := 1.033 }] := by
      rw [heq, hp, ← playTime_plainText, ← hmap]
      rfl
    have hback : ∀ x ∈ ((store.writeTo d).stamped "").toJson.reals,
        x.isFinite = true → Rereads x := by
      unfold Store.writeTo
      rw [hpairs, hreals]
      decide +kernel
    rcases hwritten hback with ⟨e, issues, he, -, -, hissues, hdate⟩
    refine ⟨d, store, e, issues, hread, hstore, he, hissues, ?_⟩
    refine hdate 0 { p with playTime := 1.033 } ?_ ?_ ?_ (Or.inr ?_)
    · rw [hpairs]
      rfl
    · change (1.033 : Float).isFinite = true
      decide +kernel
    · change (0.0 : Float) ≤ 1.033
      decide +kernel
    · rw [hmap]
      rfl
  · have hflaw : (SpeedMap.plain (1 : ℝ) 3 2).flaw? = none :=
      plain_flaw?_eq_none (by norm_num) (by norm_num)
    have hrate : FrameGrid.ofRate (30 : ℝ) = .ok ⟨30⟩ := ofRate_of_pos (by norm_num)
    rcases hexact [.ofMap (.plain 1 3 2) .full] 30 ⟨30⟩ (List.forall_mem_singleton.mpr hflaw) hrate
      with ⟨store, qs, hstore, hqs, hstale⟩
    refine ⟨store, qs, hstore, hqs, fun e he => ?_⟩
    rcases hstale e he with ⟨issues, hissues, hmem⟩
    refine ⟨issues, hissues, fun number stored computed r h => ?_⟩
    rcases (hmem _ _ _ _).mp h with ⟨i, p, hp, hneg, -⟩
    rcases (Store.ofPairs_eq_ok_iff _).mp hstore with ⟨g, hg, heq⟩
    obtain rfl : ⟨30⟩ = g := Except.ok.inj (hrate.symm.trans hg)
    -- The clip is long enough to have no negative play time.
    have hsound := (SpeedMap.flaw?_eq_none_iff _).mp hflaw
    have hspan : (1 + 1e-9) / 30 + 1e-6 ≤ (SpeedMap.plain (1 : ℝ) 3 2).lastSpan := by
      change _ ≤ (3 : ℝ) - 1
      norm_num
    have hforward := FrameGrid.forward_of_lastSpan (g := ⟨30⟩) (by norm_num) hsound hspan
    have hplay := hforward.playTime_nonneg (g := ⟨30⟩) (by norm_num) hsound
    rw [heq] at hp
    rcases List.mem_singleton.mp (List.mem_of_getElem? hp) with rfl
    exact absurd hneg (not_lt.mpr hplay)

/-- A clip that begins and ends between two frames is out of date after its play
    time was written, at the rate it was written at. -/
theorem written_times_stale :
    ∃ (p : Pair ℝ) (store : Store ℝ) (qs : List (Pair ℝ)), p.map.flaw? = none ∧
      Store.ofPairs [p] 30 = .ok store ∧
      store.pairs.mapM (fun p => Pair.ofRecord p.toRecord) = .ok qs ∧
      ∀ e : Markers ℝ, e.pairs = qs → ∃ issues stored computed, e.issues 30 = .ok issues ∧
        .staleTime 1 stored computed 30 ∈ issues := by
  have hflaw : (SpeedMap.plain (1 / 1000 : ℝ) (2 / 1000) (1 / 1000)).flaw? = none :=
    plain_flaw?_eq_none (by norm_num) (by norm_num)
  -- The clip lies between two frames, and its time comes out below zero.
  have hsound := (SpeedMap.flaw?_eq_none_iff _).mp hflaw
  have hrate : FrameGrid.ofRate (30 : ℝ) = .ok ⟨30⟩ := ofRate_of_pos (by norm_num)
  let p : Pair ℝ := .ofMap (.plain (1 / 1000) (2 / 1000) (1 / 1000)) .full
  have hstore := (Store.ofPairs_eq_ok_iff [p]).mpr ⟨_, hrate, rfl⟩
  have hrecords := Store.mapM_records (⟨30⟩ : FrameGrid ℝ) [p]
    (List.forall_mem_singleton.mpr ⟨hsound, SpeedMap.onMarkers_exact _⟩)
  refine ⟨p, _, _, hflaw, hstore, hrecords, fun e he => ?_⟩
  rcases Markers.staleTime_mem_returned_iff hrate (List.forall_mem_singleton.mpr hsound) he with
    ⟨issues, hissues, hmem⟩
  refine ⟨issues, _, _, hissues, (hmem _ _ _ _).mpr ⟨0, Store.timed ⟨30⟩ p, rfl, ?_, rfl, rfl, rfl,
    rfl⟩⟩
  exact playTime_between_frames

end Retime
