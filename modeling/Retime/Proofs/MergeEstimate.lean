import Mathlib.Data.List.Forall2
import Mathlib.Data.List.Perm.Basic
import Retime.Proofs.Exact
import Retime.Merge.List

/-!
# Estimates of Merged Clips

What a merge list lists, and what is added up in its estimates.

A group is expanded in two ways. Listing its numbers goes through each range in
the direction that was written, up to any number, and leaves out zero at the
end. Estimating goes through each range upwards, and only where there are
pairs, so that no range is too wide for it. The order of the numbers is not the
same, and so it is of the numbers as a bag that the two agree. Each range
has its numbers once in both expansions, which is why for one entry it is
enough to say which numbers it has.

In exact arithmetic a sum does not depend on order. There the estimate is the
sum over the listed pairs, and it is the same for a group with the same ranges
in another order or written backwards.

## Main definitions

* `MergeEntry.backwards`: A range that is written backwards.
* `MergeGroup.existing`: The numbers that an estimate goes through.
* `MergeGroup.listed`: The numbers that are listed, as far as there are pairs.
* `MergeGroup.Rearranges`, `MergeGroup.Rewrites`: Entries in another order, or
  backwards.

## Theorems

* `MergeEntry.width_le_iff`: Which ranges are expanded.
* `MergeEntry.existing_perm`: The two expansions of an entry.
* `MergeGroup.existing_perm`: The two expansions of a group.
* `MergeGroup.naiveTime_of_rearranges`: What an estimate does not depend on.
* `estimate_adds_listed_pairs`: Listing and estimating speak of the same pairs.
-/

namespace Retime

namespace MergeEntry

theorem lowest_le_highest (e : MergeEntry) : e.lowest.toNat ≤ e.highest.toNat := by
  cases e with
  | single n => exact Nat.le_refl _
  | range source target =>
      rw [lowest, highest, UInt64.toNat_min, UInt64.toNat_max]
      omega

theorem toNat_distance (e : MergeEntry) :
    (e.highest - e.lowest).toNat = e.highest.toNat - e.lowest.toNat :=
  UInt64.toNat_sub_of_le _ _ (UInt64.le_iff_toNat_le.mpr e.lowest_le_highest)

/-- The numbers of an entry are counted from its lowest or its highest one, and
    never leave what can be counted. -/
theorem toNat_numbers (e : MergeEntry) : e.numbers.map UInt64.toNat =
    (List.range (e.highest.toNat - e.lowest.toNat + 1)).map fun i =>
      if e.isDescending then e.highest.toNat - i else e.lowest.toNat + i := by
  rw [numbers, toNat_distance, List.map_map]
  refine List.map_congr_left fun i hi => ?_
  rw [List.mem_range] at hi
  have hle := e.lowest_le_highest
  have hlt := e.highest.toNat_lt
  -- A place is below the number of words, so it is a word itself.
  have hcount : (UInt64.ofNat i).toNat = i := by
    apply UInt64.toNat_ofNat_of_lt'
    change i < 2 ^ 64
    omega
  rw [Function.comp_apply]
  split
  · rw [UInt64.toNat_sub_of_le, hcount]
    rw [UInt64.le_iff_toNat_le, hcount]
    omega
  · rw [UInt64.toNat_add, hcount, Nat.mod_eq_of_lt]
    omega

theorem length_numbers (e : MergeEntry) :
    e.numbers.length = e.highest.toNat - e.lowest.toNat + 1 := by
  rw [← List.length_map UInt64.toNat, toNat_numbers, List.length_map, List.length_range]

/-- The widest range of all has a width that is one less than its number of
    numbers, which is still too much to be expanded. -/
theorem width_le_iff (e : MergeEntry) :
    e.width ≤ maxExpanded ↔ e.numbers.length ≤ maxExpanded.toNat := by
  have hlt := (e.highest - e.lowest).toNat_lt
  have hexpanded : maxExpanded.toNat = 10000 := rfl
  rw [length_numbers, UInt64.le_iff_toNat_le, width, ← toNat_distance, hexpanded]
  -- Only the widest range has a width that does not count its last number.
  split
  · case _ hwidest =>
      have hcount : (e.highest - e.lowest).toNat = 2 ^ 64 - 1 := by
        rw [hwidest]
        rfl
      omega
  · case _ hwidest =>
      have hcount : (e.highest - e.lowest).toNat ≠ 2 ^ 64 - 1 := fun h =>
        hwidest (UInt64.toNat_inj.mp h)
      rw [UInt64.toNat_add, UInt64.toNat_one, Nat.mod_eq_of_lt (by omega)]

theorem mem_numbers (e : MergeEntry) (n : Nat) :
    n ∈ e.numbers.map UInt64.toNat ↔ e.lowest.toNat ≤ n ∧ n ≤ e.highest.toNat := by
  have hle := e.lowest_le_highest
  rw [toNat_numbers, List.mem_map]
  constructor
  · rintro ⟨i, hi, rfl⟩
    rw [List.mem_range] at hi
    split <;> omega
  · rintro ⟨hlow, hhigh⟩
    -- A number is counted from the end at which the range begins.
    by_cases hdown : e.isDescending = true
    · refine ⟨e.highest.toNat - n, List.mem_range.mpr (by omega), ?_⟩
      rw [if_pos hdown]
      omega
    · refine ⟨n - e.lowest.toNat, List.mem_range.mpr (by omega), ?_⟩
      rw [if_neg hdown]
      omega

theorem nodup_numbers (e : MergeEntry) : (e.numbers.map UInt64.toNat).Nodup := by
  rw [toNat_numbers]
  refine List.Nodup.map_on (fun i hi j hj h => ?_) List.nodup_range
  rw [List.mem_range] at hi hj
  split at h <;> omega

theorem mem_existing (e : MergeEntry) (count n : Nat) :
    n ∈ e.existing count ↔ (e.lowest.toNat ≤ n ∧ n ≤ e.highest.toNat) ∧ 0 < n ∧ n ≤ count := by
  rw [existing, List.mem_map]
  constructor
  · rintro ⟨i, hi, rfl⟩
    rw [List.mem_range] at hi
    omega
  · intro h
    exact ⟨n - max e.lowest.toNat 1, List.mem_range.mpr (by omega), by omega⟩

theorem nodup_existing (e : MergeEntry) (count : Nat) : (e.existing count).Nodup :=
  List.nodup_range.map fun i j h => by omega

/-- The numbers of an entry that pairs have are the same whichever way one goes
    through them. -/
theorem existing_perm (e : MergeEntry) (count : Nat) : (e.existing count).Perm
    ((e.numbers.map UInt64.toNat).filter fun n => decide (n ≤ count) && decide (0 < n)) := by
  rw [List.perm_ext_iff_of_nodup (e.nodup_existing count) (e.nodup_numbers.filter _)]
  intro n
  rw [mem_existing, List.mem_filter, mem_numbers, Bool.and_eq_true, decide_eq_true_eq,
    decide_eq_true_eq, and_comm (a := n ≤ count)]

/-- An entry with its range written backwards. -/
def backwards : MergeEntry → MergeEntry
  | single n => single n
  | range source target => range target source

/-- An entry is the other one, or that one backwards. -/
def Turns (e e' : MergeEntry) : Prop := e' = e ∨ e' = e.backwards

theorem Turns.existing {e e' : MergeEntry} (h : e.Turns e') (count : Nat) :
    e'.existing count = e.existing count := by
  rcases h with rfl | rfl
  · rfl
  cases e with
  | single n => rfl
  | range source target =>
      simp only [MergeEntry.existing, backwards, lowest, highest, UInt64.toNat_min,
        UInt64.toNat_max, Nat.min_comm target.toNat, Nat.max_comm target.toNat]

/-- Texts of ranges, with the two numbers the other way round. -/
def Swaps (cs cs' : List Char) : Prop :=
  ∃ source target rest rest', Text.pieces '-' cs = source :: target :: rest ∧
    Text.pieces '-' cs' = target :: source :: rest'

theorem Swaps.parse? {cs cs' : List Char} (h : Swaps cs cs') :
    MergeEntry.parse? cs' = (MergeEntry.parse? cs).map backwards := by
  rcases h with ⟨source, target, rest, rest', hcs, hcs'⟩
  unfold MergeEntry.parse?
  rw [hcs, hcs']
  -- Both numbers have to be there, whichever is read first.
  cases hsource : leadingNumber? source <;> cases htarget : leadingNumber? target <;>
    simp [hsource, htarget, backwards]

/-- What is written in another way is read as such an entry, or neither is
    read. -/
theorem rel_parse? {cs cs' : List Char} (h : cs' = cs ∨ Swaps cs cs') :
    Option.Rel Turns (MergeEntry.parse? cs) (MergeEntry.parse? cs') := by
  rcases h with rfl | hswaps
  · cases MergeEntry.parse? cs' with
    | none => exact Option.Rel.none
    | some e => exact Option.Rel.some (Or.inl rfl)
  · rw [hswaps.parse?]
    cases MergeEntry.parse? cs with
    | none => exact Option.Rel.none
    | some e => exact Option.Rel.some (Or.inr rfl)

end MergeEntry

namespace MergeGroup

variable {α : Type}

/-- The numbers that an estimate of a group goes through if there are `count`
    pairs. -/
def existing (g : MergeGroup) (count : Nat) : List Nat :=
  g.entries.flatMap fun e => e.existing count

/-- The numbers that a group joins and that one of `count` pairs has. -/
def listed (g : MergeGroup) (count : Nat) : List Nat :=
  (g.numbers.map UInt64.toNat).filter fun n => decide (n ≤ count)

/-- An estimate goes through the numbers that are listed, if no range is too
    wide to be. -/
theorem existing_perm {g : MergeGroup}
    (hnarrow : ∀ e ∈ g.entries, e.numbers.length ≤ maxExpanded.toNat) (count : Nat) :
    (g.existing count).Perm (g.listed count) := by
  -- No range is too wide, so all of them are expanded and none is left out.
  have hexpanded : (g.entries.filter fun e => decide (e.width ≤ maxExpanded)) = g.entries := by
    refine List.filter_eq_self.mpr fun e he => ?_
    rw [decide_eq_true_eq, MergeEntry.width_le_iff]
    exact hnarrow e he
  have hlisted : g.listed count = g.entries.flatMap fun e =>
      (e.numbers.map UInt64.toNat).filter fun n => decide (n ≤ count) && decide (0 < n) := by
    rw [listed, numbers, hexpanded, List.filter_map, List.filter_filter, List.filter_flatMap,
      List.map_flatMap]
    refine List.flatMap_congr fun e _ => ?_
    rw [List.filter_map]
    rfl
  rw [hlisted]
  exact List.Perm.flatMap_left g.entries fun e _ => e.existing_perm count

/-- The pair with a number. Pairs are numbered from one. -/
def Numbered (pairs : List (Pair α)) (n : Nat) (p : Pair α) : Prop :=
  0 < n ∧ pairs[n - 1]? = some p

/-- Numbers that pairs have are looked up one by one. -/
theorem forall₂_numbered {pairs : List (Pair α)} {ns : List Nat}
    (h : ∀ n ∈ ns, 0 < n ∧ n ≤ pairs.length) :
    List.Forall₂ (Numbered pairs) ns (ns.filterMap fun n => pairs[n - 1]?) := by
  induction ns with
  | nil => exact List.Forall₂.nil
  | cons n ns ih =>
      rcases List.forall_mem_cons.mp h with ⟨⟨hpos, hle⟩, hns⟩
      have hpair : pairs[n - 1]? = some pairs[n - 1] := List.getElem?_eq_getElem (by omega)
      rw [List.filterMap_cons, hpair]
      exact List.Forall₂.cons ⟨hpos, hpair⟩ (ih hns)

theorem existing_bounds {g : MergeGroup} {count n : Nat} (h : n ∈ g.existing count) :
    0 < n ∧ n ≤ count := by
  rcases List.mem_flatMap.mp h with ⟨e, -, hn⟩
  exact ((e.mem_existing count n).mp hn).2

/-- The entries of one group are those of the other in some order, some of them
    backwards. -/
def Rearranges (g g' : MergeGroup) : Prop :=
  ∃ es, es.Perm g.entries ∧ List.Forall₂ MergeEntry.Turns es g'.entries

theorem flatMap_existing {es es' : List MergeEntry} (h : List.Forall₂ MergeEntry.Turns es es')
    (count : Nat) :
    (es'.flatMap fun e => e.existing count) = es.flatMap fun e => e.existing count := by
  induction h with
  | nil => rfl
  | cons he _ ih => rw [List.flatMap_cons, List.flatMap_cons, ih, he.existing]

/-- In exact arithmetic the estimate of a group depends neither on the order of
    its entries nor on the direction of its ranges. -/
theorem naiveTime_of_rearranges {g g' : MergeGroup} (h : g.Rearranges g')
    (pairs : List (Pair ℝ)) : g'.naiveTime pairs = g.naiveTime pairs := by
  rcases h with ⟨es, hperm, hentries⟩
  rw [naiveTime, naiveTime, Exact.sum_eq, Exact.sum_eq, flatMap_existing hentries]
  exact (((hperm.flatMap_right _).filterMap _).map _).sum_eq

/-- The entries of one text are those of the other in some order, some of them
    with the two numbers of a range the other way round. -/
def Rewrites (cs cs' : List Char) : Prop :=
  ∃ ps, ps.Perm (Text.pieces ',' cs) ∧
    List.Forall₂ (fun p p' => p' = p ∨ MergeEntry.Swaps p p') ps (Text.pieces ',' cs')

/-- What is written in another way is read as such a group. -/
theorem Rewrites.parse {cs cs' : List Char} (h : Rewrites cs cs') :
    (MergeGroup.parse cs).Rearranges (MergeGroup.parse cs') := by
  rcases h with ⟨ps, hperm, hpieces⟩
  exact ⟨ps.filterMap MergeEntry.parse?, hperm.filterMap _,
    List.rel_filterMap (fun p p' hp => MergeEntry.rel_parse? hp) hpieces⟩

end MergeGroup

/-- Listing a group and estimating it speak of the same pairs. Take any group,
    such as any that is read from a merge list, of which no range is wider than
    those that are expanded, and any list of pairs. The numbers that the
    estimate goes through are the listed ones that are at most as many as the
    pairs, each as often, and the naive times of the pairs with these numbers
    are what it adds up. So in exact arithmetic it is the sum over the listed
    pairs that exist, in the order of the list. It is the same for a group with
    these entries in another order or backwards, and for a text with its pieces
    in another order or with the numbers of ranges the other way round. -/
theorem estimate_adds_listed_pairs (g : MergeGroup)
    (hnarrow : ∀ e ∈ g.entries, e.numbers.length ≤ maxExpanded.toNat) :
    (∀ (α : Type) [Scalar α] (pairs : List (Pair α)),
      (g.existing pairs.length).Perm (g.listed pairs.length) ∧
      ∃ ps, List.Forall₂ (MergeGroup.Numbered pairs) (g.existing pairs.length) ps ∧
        g.naiveTime pairs = Scalar.sum (ps.map fun p => (p.stop - p.start) / p.speed)) ∧
    ∀ pairs : List (Pair ℝ),
      (∃ ps, List.Forall₂ (MergeGroup.Numbered pairs) (g.listed pairs.length) ps ∧
        g.naiveTime pairs = (ps.map fun p => (p.stop - p.start) / p.speed).sum) ∧
      (∀ g', g.Rearranges g' → g'.naiveTime pairs = g.naiveTime pairs) ∧
      ∀ cs cs', MergeGroup.parse cs = g → MergeGroup.Rewrites cs cs' →
        (MergeGroup.parse cs').naiveTime pairs = g.naiveTime pairs := by
  have hperm := g.existing_perm hnarrow
  refine ⟨fun α _ pairs => ⟨hperm pairs.length, _, ?_, rfl⟩, fun pairs => ⟨?_, ?_, ?_⟩⟩
  · exact MergeGroup.forall₂_numbered fun n hn => MergeGroup.existing_bounds hn
  · refine ⟨(g.listed pairs.length).filterMap fun n => pairs[n - 1]?, ?_, ?_⟩
    · exact MergeGroup.forall₂_numbered fun n hn =>
        MergeGroup.existing_bounds ((hperm pairs.length).mem_iff.mpr hn)
    · rw [MergeGroup.naiveTime, Exact.sum_eq]
      -- A sum of reals is the same for any order of what is added.
      exact (((hperm pairs.length).filterMap _).map _).sum_eq
  · exact fun g' hg' => MergeGroup.naiveTime_of_rearranges hg' pairs
  · rintro cs cs' rfl hwritten
    exact MergeGroup.naiveTime_of_rearranges hwritten.parse pairs

/-- A pair with a speed that does not change. -/
noncomputable def clip (start stop speed : ℕ) : Pair ℝ :=
  .ofMap ⟨⟨start, speed⟩, [], ⟨stop, speed⟩⟩ .full

/-- Three pairs that play for two, three and two seconds. -/
noncomputable def clips : List (Pair ℝ) := [clip 0 2 1, clip 4 7 1, clip 10 14 2]

/-- Ranges that overlap and go either way, from zero on and past the last
    pair. -/
theorem estimate_adds_listed_pairs_overlapping :
    let g := MergeGroup.parse "3-1,0-2,2,9".toList
    (∀ e ∈ g.entries, e.numbers.length ≤ maxExpanded.toNat) ∧
      g.listed clips.length = [3, 2, 1, 1, 2, 2] ∧ g.existing clips.length = [1, 2, 3, 1, 2, 2] ∧
      g.naiveTime clips = 15 ∧
      (MergeGroup.parse "2,2-0,1-3,9".toList).naiveTime clips = 15 := by
  intro g
  have hnarrow : ∀ e ∈ g.entries, e.numbers.length ≤ maxExpanded.toNat := by decide +kernel
  have hlisted : g.listed clips.length = [3, 2, 1, 1, 2, 2] := by
    change g.listed 3 = _
    decide +kernel
  have hexisting : g.existing clips.length = [1, 2, 3, 1, 2, 2] := by
    change g.existing 3 = _
    decide +kernel
  rcases (estimate_adds_listed_pairs g hnarrow).2 clips with ⟨⟨ps, hps, hsum⟩, -, hwritten⟩
  have hestimate : g.naiveTime clips = 15 := by
    rw [hlisted] at hps
    -- The sixth number of the list is the pair named alone, and the ninth pair does not exist.
    have hclips : ps =
        [clip 10 14 2, clip 4 7 1, clip 0 2 1, clip 0 2 1, clip 4 7 1, clip 4 7 1] := by
      simpa [MergeGroup.Numbered, clips, List.forall₂_cons_left_iff] using hps
    rw [hsum, hclips]
    simp [clip, Pair.ofMap, Pair.start, Pair.stop, Pair.speed, SpeedMap.start, SpeedMap.stop]
    norm_num
  refine ⟨hnarrow, hlisted, hexisting, hestimate, ?_⟩
  rw [← hestimate]
  -- Both ranges are turned round, after the pieces were put in another order.
  refine hwritten "3-1,0-2,2,9".toList _ rfl ⟨["2", "0-2", "3-1", "9"].map String.toList, ?_, ?_⟩
  · decide +kernel
  · have hpieces : Text.pieces ',' "2,2-0,1-3,9".toList =
        ["2", "2-0", "1-3", "9"].map String.toList := by decide +kernel
    rw [hpieces]
    have hswaps : MergeEntry.Swaps "0-2".toList "2-0".toList ∧
        MergeEntry.Swaps "3-1".toList "1-3".toList :=
      ⟨⟨['0'], ['2'], [], [], by decide +kernel, by decide +kernel⟩,
        ⟨['3'], ['1'], [], [], by decide +kernel, by decide +kernel⟩⟩
    exact .cons (.inl rfl) (.cons (.inr hswaps.1) (.cons (.inr hswaps.2) (.cons (.inl rfl) .nil)))

end Retime
