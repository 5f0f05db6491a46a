import Retime.Proofs.MergeEstimate

/-!
# Expanded Entries

What an entry of a merge list stands for, up to the largest number there is.

An entry is expanded on words. A range that runs downwards is made from one that
runs upwards: what is as far from the lowest number is put as far from the highest.
Differences of words wrap below zero and sums wrap at the end of the word, and the
range over all words has one number more than a word can count. So it is not clear
at first sight that the numbers of every entry are those that it names.

They are. `width?` and `numbers?` do the same with operations that refuse what does
not fit into a word, and nothing is refused. What comes out is a walk from the one
number to the other, and there is only one such walk.

## Main definitions

* `Word.sub?`, `Word.add?`: Differences and sums of words that are words.
* `Walk`: The numbers from one to another, in steps of one.
* `MergeEntry.width?`, `MergeEntry.numbers?`: An entry expanded with these.

## Theorems

* `Walk.unique`: There is one walk from a number to another.
* `MergeEntry.width?_eq`, `MergeEntry.numbers?_eq`: Nothing is refused.
* `MergeEntry.walk_numbers`: The numbers of an entry are a walk.
* `MergeEntry.toNat_width`: The width is the number of numbers, as far as a word
  can count.
* `merge_entries_expand`: What entries and groups are expanded to.
-/

namespace Retime

/-! ### Words -/

namespace Word

/-- The difference of two words, if it is one. -/
def sub? (a b : UInt64) : Option UInt64 :=
  if b ≤ a then some (a - b) else none

/-- The sum of two words, if it is one. -/
def add? (a b : UInt64) : Option UInt64 :=
  if a.toNat + b.toNat < UInt64.size then some (a + b) else none

/-- The largest word. -/
def largest : UInt64 := .ofNat (UInt64.size - 1)

theorem toNat_largest : largest.toNat = UInt64.size - 1 := rfl

theorem succ_lt_of_ne_largest {w : UInt64} (h : w ≠ largest) : w.toNat + 1 < UInt64.size := by
  have hlt := w.toNat_lt
  have hsize : UInt64.size = 2 ^ 64 := rfl
  have hne : w.toNat ≠ UInt64.size - 1 := fun heq =>
    h (UInt64.toNat_inj.mp (heq.trans toNat_largest.symm))
  omega

theorem sub?_of_le {a b : UInt64} (h : b ≤ a) : sub? a b = some (a - b) :=
  if_pos h

theorem toNat_ofNat_of_le {n : Nat} {w : UInt64} (h : n ≤ w.toNat) :
    (UInt64.ofNat n).toNat = n :=
  UInt64.toNat_ofNat_of_lt' (Nat.lt_of_le_of_lt h w.toNat_lt)

end Word

/-! ### Walks -/

/-- The numbers from one to another, in steps of one. -/
inductive Walk : Nat → Nat → List Nat → Prop
  | stay {n : Nat} : Walk n n [n]
  | up {n target : Nat} {ns : List Nat} :
      n < target → Walk (n + 1) target ns → Walk n target (n :: ns)
  | down {n target : Nat} {ns : List Nat} :
      target ≤ n → Walk n target ns → Walk (n + 1) target ((n + 1) :: ns)

namespace Walk

variable {source target : Nat} {ns : List Nat}

/-- There is one walk from a number to another. -/
theorem unique {ms : List Nat} (h : Walk source target ns) (h' : Walk source target ms) :
    ns = ms := by
  -- The two ends decide whether a walk stays, goes up or goes down.
  induction h generalizing ms with
  | stay =>
      cases h' with
      | stay => rfl
      | up hlt => omega
      | down hle => omega
  | up hlt _ ih =>
      cases h' with
      | stay => omega
      | up _ h' => rw [ih h']
      | down hle => omega
  | down hle _ ih =>
      cases h' with
      | stay => omega
      | up hlt => omega
      | down _ h' => rw [ih h']

/-- Counting up from a number. -/
theorem counting_up (lowest distance : Nat) :
    Walk lowest (lowest + distance) ((List.range (distance + 1)).map (lowest + ·)) := by
  -- The induction takes the first step, after which the lowest number is one more.
  induction distance generalizing lowest with
  | zero => exact .stay
  | succ distance ih =>
      have hnext : lowest + 1 + distance = lowest + (distance + 1) := by omega
      have hshift : ∀ i, lowest + 1 + i = lowest + (i + 1) := fun i => by omega
      have hrest := ih (lowest + 1)
      rw [hnext] at hrest
      rw [List.range_succ_eq_map, List.map_cons, List.map_map]
      simp only [hshift] at hrest
      exact .up (by omega) hrest

/-- Counting down to a number. -/
theorem counting_down (lowest distance : Nat) :
    Walk (lowest + distance) lowest ((List.range (distance + 1)).map (lowest + distance - ·)) := by
  induction distance with
  | zero => exact .stay
  | succ distance ih =>
      have hshift : ∀ i, lowest + (distance + 1) - (i + 1) = lowest + distance - i :=
        fun i => by omega
      rw [List.range_succ_eq_map, List.map_cons, List.map_map]
      simp only [Function.comp_def, Nat.succ_eq_add_one, hshift]
      exact .down (Nat.le_add_right lowest distance) ih

end Walk

/-! ### Entries -/

/-- Where nothing is refused, going through a list gives what each member does. -/
theorem mapM_eq_some {β γ : Type} {f : β → Option γ} {g : β → γ} {bs : List β}
    (h : ∀ b ∈ bs, f b = some (g b)) : bs.mapM f = some (bs.map g) := by
  induction bs with
  | nil => rfl
  | cons b bs ih =>
      rcases List.forall_mem_cons.mp h with ⟨hb, hbs⟩
      rw [List.mapM_cons, hb, ih hbs]
      rfl

namespace MergeEntry

/-- The number that an entry begins with. -/
def source : MergeEntry → UInt64
  | single n => n
  | range source _ => source

/-- The number that an entry ends with. -/
def target : MergeEntry → UInt64
  | single n => n
  | range _ target => target

/-- How many numbers an entry has, or as many as a word can count. -/
def width? (e : MergeEntry) : Option UInt64 := do
  let distance ← Word.sub? e.highest e.lowest
  return (Word.add? distance 1).getD Word.largest

/-- The numbers from the lowest to the highest. -/
def ascending (e : MergeEntry) : List UInt64 :=
  (List.range' e.lowest.toNat (e.highest.toNat - e.lowest.toNat + 1)).map .ofNat

/-- What an entry has in the place of a number from the lowest on. A range that
    runs downwards has what is as far from the highest. -/
def inPlaceOf? (e : MergeEntry) (n : UInt64) : Option UInt64 :=
  if e.isDescending then do
    let distance ← Word.sub? n e.lowest
    Word.sub? e.highest distance
  else
    some n

/-- The numbers of an entry, in their order. -/
def numbers? (e : MergeEntry) : Option (List UInt64) :=
  e.ascending.mapM e.inPlaceOf?

theorem lowest_le (e : MergeEntry) : e.lowest ≤ e.highest :=
  UInt64.le_iff_toNat_le.mpr e.lowest_le_highest

/-- The width of an entry can be computed in words. -/
theorem width?_eq (e : MergeEntry) : e.width? = some e.width := by
  unfold width? width
  rw [Word.sub?_of_le e.lowest_le]
  change some ((Word.add? (e.highest - e.lowest) 1).getD Word.largest) =
    some (if e.highest - e.lowest = Word.largest then e.highest - e.lowest
      else e.highest - e.lowest + 1)
  unfold Word.add?
  rw [UInt64.toNat_one]
  -- Adding one leaves the word only for the widest range,
  -- where the largest word stands in for it.
  by_cases hwidest : e.highest - e.lowest = Word.largest
  · have hfull : ¬ (e.highest - e.lowest).toNat + 1 < UInt64.size := by
      rw [hwidest]
      decide
    rw [if_neg hfull, if_pos hwidest, hwidest]
    rfl
  · rw [if_pos (Word.succ_lt_of_ne_largest hwidest), if_neg hwidest]
    rfl

/-- The place of a number is found in words, a given distance above the lowest. -/
theorem inPlaceOf?_eq (e : MergeEntry) {i : Nat}
    (hi : i < e.highest.toNat - e.lowest.toNat + 1) :
    e.inPlaceOf? (.ofNat (e.lowest.toNat + i)) =
      some (if e.isDescending then e.highest - .ofNat i else e.lowest + .ofNat i) := by
  have hle := e.lowest_le_highest
  -- All numbers are at most the highest one, so they are words.
  have hindex : (UInt64.ofNat i).toNat = i :=
    Word.toNat_ofNat_of_le (w := e.highest) (by omega)
  have hnumber : (UInt64.ofNat (e.lowest.toNat + i)).toNat = e.lowest.toNat + i :=
    Word.toNat_ofNat_of_le (w := e.highest) (by omega)
  have hplace : UInt64.ofNat (e.lowest.toNat + i) = e.lowest + .ofNat i := by
    rw [UInt64.ofNat_add, UInt64.ofNat_toNat]
  have habove : e.lowest ≤ UInt64.ofNat (e.lowest.toNat + i) := by
    rw [UInt64.le_iff_toNat_le, hnumber]
    omega
  have hdistance : UInt64.ofNat (e.lowest.toNat + i) - e.lowest = .ofNat i := by
    rw [← UInt64.toNat_inj, UInt64.toNat_sub_of_le _ _ habove, hnumber, hindex]
    omega
  unfold inPlaceOf?
  by_cases hdown : e.isDescending = true
  · have hbelow : UInt64.ofNat i ≤ e.highest := by
      rw [UInt64.le_iff_toNat_le, hindex]
      omega
    rw [if_pos hdown, if_pos hdown, Word.sub?_of_le habove, hdistance]
    exact Word.sub?_of_le hbelow
  · rw [if_neg hdown, if_neg hdown, hplace]

/-- The numbers of an entry can be computed in words. -/
theorem numbers?_eq (e : MergeEntry) : e.numbers? = some e.numbers := by
  have hascending : e.ascending = (List.range (e.highest.toNat - e.lowest.toNat + 1)).map
      fun i => .ofNat (e.lowest.toNat + i) := by
    rw [ascending, List.range'_eq_map_range, List.map_map]
    rfl
  rw [numbers?, hascending, List.mapM_map, numbers, toNat_distance]
  exact mapM_eq_some fun i hi => e.inPlaceOf?_eq (List.mem_range.mp hi)

/-- The numbers of an entry are a walk from the first to the last. -/
theorem walk_numbers (e : MergeEntry) :
    Walk e.source.toNat e.target.toNat (e.numbers.map UInt64.toNat) := by
  have hle := e.lowest_le_highest
  have hup := Walk.counting_up e.lowest.toNat (e.highest.toNat - e.lowest.toNat)
  have hdown := Walk.counting_down e.lowest.toNat (e.highest.toNat - e.lowest.toNat)
  rw [Nat.add_sub_cancel' hle] at hup hdown
  rw [toNat_numbers]
  cases e with
  | single n => exact hup
  | range source target =>
      -- A range that goes down begins at its highest number, any other at its lowest.
      by_cases hlt : target < source
      · have hends : (range source target).lowest.toNat = target.toNat ∧
            (range source target).highest.toNat = source.toNat := by
          rw [UInt64.lt_iff_toNat_lt] at hlt
          rw [lowest, highest, UInt64.toNat_min, UInt64.toNat_max]
          omega
        have hdescending : (range source target).isDescending = true := decide_eq_true hlt
        simp only [hdescending, if_true]
        rw [hends.1, hends.2] at hdown ⊢
        exact hdown
      · have hends : (range source target).lowest.toNat = source.toNat ∧
            (range source target).highest.toNat = target.toNat := by
          rw [UInt64.lt_iff_toNat_lt] at hlt
          rw [lowest, highest, UInt64.toNat_min, UInt64.toNat_max]
          omega
        have hascending : (range source target).isDescending = false := decide_eq_false hlt
        simp only [hascending, Bool.false_eq_true, if_false]
        rw [hends.1, hends.2] at hup ⊢
        exact hup

/-- The width of an entry is the number of its numbers, as far as a word can
    count. -/
theorem toNat_width (e : MergeEntry) :
    e.width.toNat = min e.numbers.length (UInt64.size - 1) := by
  have hsize : UInt64.size = 2 ^ 64 := rfl
  rw [length_numbers, ← toNat_distance]
  change (if e.highest - e.lowest = Word.largest then e.highest - e.lowest
    else e.highest - e.lowest + 1).toNat = _
  -- The widest range has as many numbers as there are words, which is one too many to count.
  by_cases hwidest : e.highest - e.lowest = Word.largest
  · rw [if_pos hwidest, hwidest, Word.toNat_largest]
    omega
  · have hroom := Word.succ_lt_of_ne_largest hwidest
    rw [if_neg hwidest, UInt64.toNat_add, UInt64.toNat_one, Nat.mod_eq_of_lt (by omega)]
    omega

end MergeEntry

namespace MergeGroup

/-- A group has at most as many numbers as its entries have that are expanded. -/
theorem length_numbers_le (g : MergeGroup) :
    g.numbers.length ≤ maxExpanded.toNat * g.entries.length := by
  -- What is expanded has at most ten thousand numbers, entry by entry.
  have hentries : ∀ n ∈ (g.entries.filter fun e => decide (e.width ≤ maxExpanded)).map
      fun e => e.numbers.length, n ≤ maxExpanded.toNat := by
    intro n hn
    rcases List.mem_map.mp hn with ⟨e, he, rfl⟩
    exact (MergeEntry.width_le_iff e).mp (of_decide_eq_true (List.mem_filter.mp he).2)
  have hsum := List.sum_le_card_nsmul _ _ hentries
  rw [List.length_map, smul_eq_mul, Nat.mul_comm] at hsum
  calc g.numbers.length
      ≤ ((g.entries.filter fun e => decide (e.width ≤ maxExpanded)).flatMap
          MergeEntry.numbers).length := List.length_filter_le _ _
    _ = ((g.entries.filter fun e => decide (e.width ≤ maxExpanded)).map
          fun e => e.numbers.length).sum := List.length_flatMap
    _ ≤ maxExpanded.toNat * (g.entries.filter fun e => decide (e.width ≤ maxExpanded)).length :=
        hsum
    _ ≤ maxExpanded.toNat * g.entries.length :=
        Nat.mul_le_mul_left _ (List.length_filter_le _ _)

/-- The numbers of a group are the walks of its narrow entries, one after the
    other, without zeros. -/
theorem walks_numbers (g : MergeGroup) :
    ∃ walks, List.Forall₂ (fun e ns => Walk e.source.toNat e.target.toNat ns)
        (g.entries.filter fun e => decide (e.numbers.length ≤ maxExpanded.toNat)) walks ∧
      g.numbers.map UInt64.toNat = walks.flatten.filter fun n => decide (0 < n) := by
  -- An entry is narrow by its width just if it is by the number of its numbers.
  have hnarrow : (g.entries.filter fun e => decide (e.width ≤ maxExpanded)) =
      g.entries.filter fun e => decide (e.numbers.length ≤ maxExpanded.toNat) := by
    simp only [MergeEntry.width_le_iff]
  refine ⟨(g.entries.filter fun e => decide (e.numbers.length ≤ maxExpanded.toNat)).map
    fun e => e.numbers.map UInt64.toNat, ?_, ?_⟩
  · exact List.forall₂_map_right_iff.mpr (List.forall₂_same.mpr fun e _ => e.walk_numbers)
  · rw [numbers, hnarrow, ← List.flatMap_def, ← List.map_flatMap, List.filter_map]
    rfl

end MergeGroup

/-- Entries are expanded as they are read, on the whole range of words. Whatever
    an entry is, no operation on words on the way to its width or to its numbers
    leaves the word. Its numbers are the walk from its first number to its last,
    and all different, and its width is how many they are, or the largest word if
    they are one more. The numbers of a group are the walks of those of its entries
    that have at most ten thousand numbers, in their order and without zeros, and
    so are at most ten thousand for each entry. -/
theorem merge_entries_expand :
    (∀ e : MergeEntry, e.width? = some e.width ∧ e.numbers? = some e.numbers ∧
      (∀ ns, Walk e.source.toNat e.target.toNat ns ↔ ns = e.numbers.map UInt64.toNat) ∧
      e.numbers.Nodup ∧ e.width.toNat = min e.numbers.length (UInt64.size - 1)) ∧
    ∀ g : MergeGroup,
      (∃ walks, List.Forall₂ (fun e ns => Walk e.source.toNat e.target.toNat ns)
          (g.entries.filter fun e => decide (e.numbers.length ≤ 10000)) walks ∧
        g.numbers.map UInt64.toNat = walks.flatten.filter fun n => decide (0 < n)) ∧
      g.numbers.length ≤ 10000 * g.entries.length := by
  refine ⟨fun e => ⟨e.width?_eq, e.numbers?_eq, fun ns => ⟨fun h => ?_, ?_⟩,
    e.nodup_numbers.of_map _, e.toNat_width⟩, fun g => ⟨g.walks_numbers, g.length_numbers_le⟩⟩
  · exact h.unique e.walk_numbers
  · rintro rfl
    exact e.walk_numbers

example : (MergeEntry.range 3 0).numbers = [3, 2, 1, 0] ∧
    (MergeEntry.range Word.largest 0).width = Word.largest := by decide

end Retime
