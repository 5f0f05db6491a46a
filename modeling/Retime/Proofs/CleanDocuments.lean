import Retime.Proofs.CropBounds
import Retime.Proofs.MergeEstimate
import Retime.Proofs.WrittenTimes
import Retime.Issues

/-!
# Documents without Issues

A document that could be read has no issues if and only if it is consistent.

What makes a document consistent is said here without any of the functions that
look for issues. These take shorter ways. A crop is not compared with the
picture but with what is left of it when it is brought inside, which also has to
be right for a crop without pixels and for one that is larger than the picture.
Of a merge entry only the highest number is looked at. The order of the ends of
a loop is refuted in three comparisons, which is the same as having it where all
ends are numbers, and reading has seen to that. It has also seen to the speed
maps, so they are looked at in vain.

## Main definitions

* `Crop.LiesIn`: A crop is a part of the picture.
* `Pair.LoopFits`: A loop runs forwards within its pair.
* `Markers.Consistent`: All parts of a document fit each other, and a grid.

## Theorems

* `Crop.inside_eq_self_iff`: What bringing a crop inside leaves alone.
* `Pair.issues_eq_nil_iff`, `MergeGroup.issues_eq_nil_iff`: What has no issues.
* `Markers.issues_of_grid`: The issues of a document, by what they concern.
* `clean_iff_consistent`: A document has no issues if and only if it is
  consistent.
-/

namespace Retime

/-! ### Crops -/

namespace Crop

/-- A crop is a part of the picture, as numbers without bounds have it. -/
def LiesIn (r : Resolution) (c : Crop) : Prop :=
  c.x.toNat + (c.width.size r.width).toNat ≤ r.width.toNat ∧
    c.y.toNat + (c.height.size r.height).toNat ≤ r.height.toNat

/-- Along one side, what lies in the picture is what stays when it is brought
    inside. -/
theorem side_eq_self_iff (corner : UInt32) (extent : Extent) (whole : UInt32) :
    (pullBack corner (extent.size whole) whole = corner ∧
      extent.map (fun n => min n (whole - pullBack corner (extent.size whole) whole)) = extent) ↔
      corner.toNat + (extent.size whole).toNat ≤ whole.toNat := by
  rw [← UInt32.toNat_inj, toNat_pullBack]
  -- A written size may be cut, while the full one is as large as the picture.
  cases extent with
  | pixels n =>
      have hrest : Extent.map (fun m => min m (whole - pullBack corner n whole)) (.pixels n) =
          .pixels n ↔ min n.toNat whole.toNat = n.toNat := by
        rw [← toNat_rest corner n whole, UInt32.toNat_inj]
        exact Extent.pixels.injEq _ _ ▸ Iff.rfl
      change _ ∧ Extent.map (fun m => min m (whole - pullBack corner n whole)) (.pixels n) = _ ↔ _
      rw [hrest]
      change min corner.toNat (whole.toNat - min n.toNat whole.toNat) = corner.toNat ∧ _ ↔
        corner.toNat + n.toNat ≤ whole.toNat
      omega
  | full =>
      change min corner.toNat (whole.toNat - min whole.toNat whole.toNat) = corner.toNat ∧
        Extent.full = Extent.full ↔ corner.toNat + whole.toNat ≤ whole.toNat
      rw [and_iff_left rfl]
      omega

/-- A crop stays as it is when it is brought inside if and only if it lies in the
    picture. -/
theorem inside_eq_self_iff (r : Resolution) (c : Crop) : c.inside r = c ↔ c.LiesIn r := by
  rw [LiesIn, ← side_eq_self_iff, ← side_eq_self_iff]
  cases c
  simp only [inside, Crop.mk.injEq]
  exact ⟨fun ⟨hx, hy, hw, hh⟩ => ⟨⟨hx, hw⟩, hy, hh⟩, fun ⟨⟨hx, hw⟩, hy, hh⟩ => ⟨hx, hy, hw, hh⟩⟩

end Crop

variable {α : Type} [Scalar α]

/-! ### Pairs -/

namespace Pair

/-- A loop with two ends runs forwards within its pair. -/
def LoopFits (p : Pair α) : Prop :=
  ∀ start ∈ p.loop.start, ∀ stop ∈ p.loop.stop,
    p.start ≤ start ∧ start < stop ∧ stop ≤ p.stop

variable {p : Pair α}

theorem mapIssue?_eq_none [OrderedScalar α] (hp : p.map.Sound) (n : Nat) :
    p.mapIssue? n = none := by
  unfold mapIssue? SpeedMap.validate
  rw [(SpeedMap.flaw?_eq_none_iff _).mpr hp]

omit [Scalar α] in
theorem cropIssue?_eq_none_iff (n : Nat) (r : Resolution) (p : Pair α) :
    p.cropIssue? n r = none ↔ p.crop.LiesIn r := by
  unfold cropIssue?
  rw [← Crop.inside_eq_self_iff]
  by_cases hin : p.crop.inside r = p.crop
  · simp only [hin, if_true]
  · simp only [hin, if_false, reduceCtorEq]

/-- Numbers that are not found in the wrong order are in the right one. -/
theorem loopIssue?_eq_none_iff [OrderedScalar α] (hp : p.map.Sound)
    (hstart : ∀ x ∈ p.loop.start, Scalar.isFinite x = true)
    (hstop : ∀ x ∈ p.loop.stop, Scalar.isFinite x = true) (n : Nat) :
    p.loopIssue? n = none ↔ p.LoopFits := by
  unfold loopIssue? LoopFits
  cases hs : p.loop.start with
  | none => exact iff_of_true rfl nofun
  | some start =>
      cases ht : p.loop.stop with
      | none => exact iff_of_true rfl fun _ _ => nofun
      | some stop =>
          have hbegin := hstart start hs
          have hend := hstop stop ht
          have hfirst : Scalar.isFinite p.start = true := hp.finite_start
          have hlast : Scalar.isFinite p.stop = true := hp.finite_stop
          -- All four times are finite, so what is not less is at most.
          have horder : ¬ (stop ≤ start ∨ start < p.start ∨ p.stop < stop) ↔
              p.start ≤ start ∧ start < stop ∧ stop ≤ p.stop := by
            rw [not_or, not_or, OrderedScalar.not_lt hbegin hfirst,
              OrderedScalar.not_lt hlast hend, ← OrderedScalar.not_lt hbegin hend, not_not]
            exact and_left_comm
          simp only [Option.mem_some_iff, forall_eq', ← horder, ite_eq_right_iff, reduceCtorEq,
            imp_false]

/-- What a pair shows without a frame rate that is not about its crop is about
    its loop, if its map is sound. -/
theorem mem_issues_iff [OrderedScalar α] (hp : p.map.Sound) (r : Resolution) (n : Nat)
    (issue : Issue α) :
    issue ∈ p.issues r n ↔ p.cropIssue? n r = some issue ∨ p.loopIssue? n = some issue := by
  unfold issues
  rw [mapIssue?_eq_none hp]
  simp only [List.mem_filterMap, List.mem_cons, List.not_mem_nil, or_false, id, exists_eq_right,
    reduceCtorEq, false_or, eq_comm]

theorem issues_eq_nil_iff [OrderedScalar α] (hp : p.map.Sound)
    (hstart : ∀ x ∈ p.loop.start, Scalar.isFinite x = true)
    (hstop : ∀ x ∈ p.loop.stop, Scalar.isFinite x = true) (r : Resolution) (n : Nat) :
    p.issues r n = [] ↔ p.crop.LiesIn r ∧ p.LoopFits := by
  rw [← cropIssue?_eq_none_iff n, ← loopIssue?_eq_none_iff hp hstart hstop n,
    List.eq_nil_iff_forall_not_mem, Option.eq_none_iff_forall_ne_some,
    Option.eq_none_iff_forall_ne_some, ← forall_and]
  refine forall_congr' fun issue => ?_
  rw [mem_issues_iff hp, not_or]

end Pair

/-! ### Merge lists -/

omit [Scalar α] in
/-- The highest number of an entry is the one that decides. -/
theorem MergeEntry.issue?_eq_none_iff (group : String) (count : Nat) (e : MergeEntry) :
    (e.issue? group count : Option (Issue α)) = none ↔ ∀ n ∈ e.numbers, n.toNat ≤ count := by
  unfold issue?
  rw [← List.forall_mem_map (P := fun n => n ≤ count)]
  simp only [mem_numbers, ite_eq_right_iff, reduceCtorEq, imp_false, Nat.not_lt]
  exact ⟨fun hle n hn => hn.2.trans hle,
    fun h => h e.highest.toNat ⟨e.lowest_le_highest, Nat.le_refl _⟩⟩

omit [Scalar α] in
theorem MergeGroup.issues_eq_nil_iff (count : Nat) (g : MergeGroup) :
    (g.issues count : List (Issue α)) = [] ↔
      ∀ e ∈ g.entries, ∀ n ∈ e.numbers, n.toNat ≤ count := by
  unfold issues
  rw [List.filterMap_eq_nil_iff]
  exact forall₂_congr fun e _ => e.issue?_eq_none_iff g.source count

/-! ### Documents -/

namespace Markers

/-- All parts of a document fit each other, and its play times are those of a
    grid. -/
structure Consistent (d : Markers α) (g : FrameGrid α) : Prop where
  crops : ∀ p ∈ d.pairs, p.crop.LiesIn d.settings.resolution
  loops : ∀ p ∈ d.pairs, p.LoopFits
  times : ∀ p ∈ d.pairs, ¬ (1e-9 : α) < Scalar.abs (p.playTime - g.playTime p.map)
  merges : ∀ group ∈ MergeList.parse d.settings.mergeList, ∀ e ∈ group.entries,
    ∀ n ∈ e.numbers, n.toNat ≤ d.pairs.length

/-- The issues that pairs show without a frame rate. -/
def pairIssues (d : Markers α) : List (Issue α) :=
  (d.pairs.zipWith (Pair.issues d.settings.resolution) (List.range' 1 d.pairs.length)).flatten

/-- The issues of the play times, at a grid. -/
def timeIssues (d : Markers α) (g : FrameGrid α) (rate : α) : List (Issue α) :=
  ((d.pairs.zip (d.pairs.map (Store.timed g))).zipWith
    (fun (stored, computed) number => Pair.timeIssue? rate stored computed number)
    (List.range' 1 d.pairs.length)).filterMap id

/-- The issues of the merge list. -/
def mergeIssues (d : Markers α) : List (Issue α) :=
  (MergeList.parse d.settings.mergeList).flatMap (MergeGroup.issues d.pairs.length)

/-- The issues of a document are those of its pairs, of its play times and of its
    merge list. -/
theorem issues_of_grid (d : Markers α) {rate : α} {g : FrameGrid α}
    (hg : FrameGrid.ofRate rate = .ok g) :
    d.issues rate = .ok (d.pairIssues ++ d.timeIssues g rate ++ d.mergeIssues) := by
  unfold issues
  rw [(Store.ofPairs_eq_ok_iff d.pairs).mpr ⟨g, hg, rfl⟩]
  rfl

theorem mem_pairIssues_iff {d : Markers α} {issue : Issue α} :
    issue ∈ d.pairIssues ↔
      ∃ (i : Nat) (p : Pair α), d.pairs[i]? = some p ∧
        issue ∈ p.issues d.settings.resolution (i + 1) := by
  unfold pairIssues
  rw [List.mem_flatten]
  constructor
  · rintro ⟨l, hl, hissue⟩
    rcases List.mem_iff_getElem?.mp hl with ⟨i, hi⟩
    rcases List.getElem?_zipWith_eq_some.mp hi with ⟨p, n, hp, hn, rfl⟩
    -- The numbers run from one, beside the pairs.
    rw [List.getElem?_range' (List.getElem?_eq_some_iff.mp hp).1, Nat.one_mul, Nat.add_comm] at hn
    cases hn
    exact ⟨i, p, hp, hissue⟩
  · rintro ⟨i, p, hp, hissue⟩
    refine ⟨_, List.mem_iff_getElem?.mpr ⟨i, ?_⟩, hissue⟩
    refine List.getElem?_zipWith_eq_some.mpr ⟨p, i + 1, hp, ?_, rfl⟩
    rw [List.getElem?_range' (List.getElem?_eq_some_iff.mp hp).1, Nat.one_mul, Nat.add_comm]

variable {d : Markers α}

theorem pairIssues_eq_nil_iff :
    d.pairIssues = [] ↔ ∀ (i : Nat) (p : Pair α), d.pairs[i]? = some p →
      p.issues d.settings.resolution (i + 1) = [] := by
  simp only [List.eq_nil_iff_forall_not_mem, mem_pairIssues_iff, not_exists, not_and]
  exact ⟨fun h i p hp issue => h issue i p hp, fun h issue i p hp => h i p hp issue⟩

theorem timeIssues_eq_nil_iff (g : FrameGrid α) (rate : α) :
    d.timeIssues g rate = [] ↔
      ∀ p ∈ d.pairs, ¬ (1e-9 : α) < Scalar.abs (p.playTime - g.playTime p.map) := by
  rw [List.eq_nil_iff_forall_not_mem]
  constructor
  · intro h p hp
    rcases List.getElem?_of_mem hp with ⟨i, hi⟩
    -- A time that is off is an issue of its pair, and there are none.
    intro hoff
    exact h _ (Pair.mem_timeIssues_iff.mpr
      ⟨i, p, hi, Pair.timeIssue?_eq_some_iff.mpr ⟨hoff, rfl⟩⟩)
  · intro h issue hissue
    rcases Pair.mem_timeIssues_iff.mp hissue with ⟨i, p, hp, hissue⟩
    exact h p (List.mem_of_getElem? hp) (Pair.timeIssue?_eq_some_iff.mp hissue).1

omit [Scalar α] in
theorem mergeIssues_eq_nil_iff :
    d.mergeIssues = [] ↔ ∀ group ∈ MergeList.parse d.settings.mergeList, ∀ e ∈ group.entries,
      ∀ n ∈ e.numbers, n.toNat ≤ d.pairs.length := by
  unfold mergeIssues
  rw [List.flatMap_eq_nil_iff]
  exact forall₂_congr fun group _ => group.issues_eq_nil_iff d.pairs.length

/-- Nothing is found to be wrong with maps that are sound. -/
theorem badMap_notMem [OrderedScalar α] (hsound : ∀ p ∈ d.pairs, p.map.Sound) (g : FrameGrid α)
    (rate : α) (number : Nat) (cause : MarkerError α) :
    .badMap number cause ∉ d.pairIssues ++ d.timeIssues g rate ++ d.mergeIssues := by
  rw [List.mem_append, List.mem_append]
  rintro ((hmem | hmem) | hmem)
  · -- With a sound map only the crop and the loop of a pair are left to complain of.
    rcases mem_pairIssues_iff.mp hmem with ⟨i, p, hp, hissue⟩
    rcases (Pair.mem_issues_iff (hsound p (List.mem_of_getElem? hp)) _ _ _).mp hissue with h | h
    · unfold Pair.cropIssue? at h
      split at h
      · cases h
      · cases h
    · unfold Pair.loopIssue? at h
      split at h
      · split at h
        · cases h
        · cases h
      · cases h
  · rcases Pair.mem_timeIssues_iff.mp hmem with ⟨i, p, -, hissue⟩
    exact nomatch (Pair.timeIssue?_eq_some_iff.mp hissue).2
  · rcases List.mem_flatMap.mp hmem with ⟨group, -, hmem⟩
    rcases List.mem_filterMap.mp hmem with ⟨e, -, he⟩
    unfold MergeEntry.issue? at he
    split at he
    · cases he
    · cases he

end Markers

/-- A document that was read is checked at every frame rate that there is. It has
    no issues if and only if it is consistent: its crops lie in the picture, its
    loops run forwards within their pairs, its play times are no further off than
    they may be, and its merge list names no number above that of the pairs. No
    issue is ever about a speed map. -/
theorem clean_iff_consistent (text : String) (d : Markers Float) (rate : Float)
    (g : FrameGrid Float) (hread : Markers.parse text = .ok d)
    (hg : FrameGrid.ofRate rate = .ok g) :
    ∃ issues, d.issues rate = .ok issues ∧ (issues = [] ↔ d.Consistent g) ∧
      ∀ number cause, .badMap number cause ∉ issues := by
  have hd : d.Stored := (Markers.parse_stored hread).1
  have hsound : ∀ p ∈ d.pairs, p.map.Sound := fun p hp => (hd.pairs p hp).sound
  refine ⟨_, d.issues_of_grid hg, ?_, Markers.badMap_notMem hsound g rate⟩
  -- Loops of a document that was read have finite ends, so each pair is clean just if it fits.
  have hpair : ∀ (i : Nat) (p : Pair Float), d.pairs[i]? = some p →
      (p.issues d.settings.resolution (i + 1) = [] ↔
        p.crop.LiesIn d.settings.resolution ∧ p.LoopFits) := by
    intro i p hp
    have hmem := List.mem_of_getElem? hp
    have hloop := (hd.pairs p hmem).loop
    exact Pair.issues_eq_nil_iff (hsound p hmem) hloop.start hloop.stop _ _
  rw [List.append_eq_nil_iff, List.append_eq_nil_iff, Markers.pairIssues_eq_nil_iff,
    Markers.timeIssues_eq_nil_iff, Markers.mergeIssues_eq_nil_iff]
  constructor
  · rintro ⟨⟨hpairs, htimes⟩, hmerges⟩
    have hfits : ∀ p ∈ d.pairs, p.crop.LiesIn d.settings.resolution ∧ p.LoopFits := by
      intro p hp
      rcases List.getElem?_of_mem hp with ⟨i, hi⟩
      exact (hpair i p hi).mp (hpairs i p hi)
    exact ⟨fun p hp => (hfits p hp).1, fun p hp => (hfits p hp).2, htimes, hmerges⟩
  · intro h
    refine ⟨⟨fun i p hp => (hpair i p hp).mpr ?_, h.times⟩, h.merges⟩
    have hmem := List.mem_of_getElem? hp
    exact ⟨h.crops p hmem, h.loops p hmem⟩

/-- A document with a pair whose crop ends at the edge of the picture, whose loop
    ends at its marker, and whose play time is stored. -/
def consistentText : String :=
  "\x7b\"markerPairMergeList\":\"1\",\"markerPairs\":[\x7b\"start\":1,\"end\":3,\"speed\":2," ++
    "\"crop\":\"960:540:960:540\",\"outputDuration\":1.033," ++
    "\"speedMapLoop\":\x7b\"start\":2,\"end\":3\x7d\x7d]\x7d"

/-- The document has no issues. -/
theorem clean_iff_consistent_edge : ∃ d : Markers Float, Markers.parse consistentText = .ok d ∧
    FrameGrid.ofRate (30.0 : Float) = .ok ⟨30.0⟩ ∧ d.Consistent ⟨30.0⟩ ∧
    d.issues 30.0 = .ok [] := by
  -- All that the four conditions speak of is read off one run of the reader.
  have hrun : ((Markers.parse consistentText).toOption.map fun d : Markers Float =>
      decide (d.settings.resolution = ⟨1920, 1080⟩) &&
      decide (MergeList.parse d.settings.mergeList = [⟨"1", [.single 1]⟩]) &&
      decide (d.pairs.map Pair.crop = [⟨960, 540, .pixels 960, .pixels 540⟩]) &&
      decide (d.pairs.map (fun p => [p.map.times, p.map.speeds, p.loop.start.toList,
        p.loop.stop.toList, [p.playTime]]) =
          [[[1.0, 3.0], [2.0, 2.0], [2.0], [3.0], [1.033]]])) = some true := by decide +kernel
  rcases Option.map_eq_some_iff.mp hrun with ⟨d, hd, hfacts⟩
  have hread : Markers.parse consistentText = .ok d := toOption_eq_some_iff.mp hd
  simp only [Bool.and_eq_true, decide_eq_true_eq] at hfacts
  rcases hfacts with ⟨⟨⟨hresolution, hmerges⟩, hcrops⟩, hpairs⟩
  rcases List.map_eq_singleton_iff.mp hpairs with ⟨p, hp, hparts⟩
  simp only [List.cons.injEq, and_true, Option.toList_eq_singleton_iff] at hparts
  rcases hparts with ⟨htimes, hspeeds, hstart, hstop, htime⟩
  have hcrop : p.crop = ⟨960, 540, .pixels 960, .pixels 540⟩ := by
    rw [hp] at hcrops
    exact List.singleton_inj.mp hcrops
  have hmap : p.map = .plain 1.0 3.0 2.0 := SpeedMap.ext_of_times_speeds htimes hspeeds
  -- The loop begins in the middle and ends with the pair, and the crop touches the corner.
  have hconsistent : d.Consistent ⟨30.0⟩ := by
    refine ⟨?_, ?_, ?_, ?_⟩
    · rw [hp, List.forall_mem_singleton, hcrop, hresolution]
      unfold Crop.LiesIn
      decide
    · rw [hp, List.forall_mem_singleton]
      unfold Pair.LoopFits Pair.start Pair.stop
      rw [hstart, hstop, hmap]
      decide
    · rw [hp, List.forall_mem_singleton, htime, hmap, playTime_plainText]
      decide
    · rw [hmerges, hp, List.forall_mem_singleton, List.forall_mem_singleton]
      exact (@MergeEntry.issue?_eq_none_iff Float "1" 1 (.single 1)).mp rfl
  rcases clean_iff_consistent consistentText d 30.0 ⟨30.0⟩ hread rfl with ⟨issues, hissues, hiff, -⟩
  rw [hiff.mpr hconsistent] at hissues
  exact ⟨d, hread, rfl, hconsistent, hissues⟩

end Retime
