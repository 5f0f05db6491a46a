import Retime.Scalar.Double

/-!
# The Order of Scalars

What a speed map needs to know of the numbers it is made of.

Maps are kept in order by comparing times, and nothing else that doubles can
do matters to the edits of a boundary. So the laws are few: comparison is
transitive, and of two finite scalars exactly one is below the other or not
above it. Both hold for doubles, where the second fails for a non-number, and
every time in a map is finite.

A double is compared by its parts and not by its value. The rank of a double
is a row of three integers, its class, its exponent and its mantissa, the last
two with the sign in front, and doubles compare as their ranks do from left to
right. Both laws are then facts about integers.

## Main definitions

* `OrderedScalar`: Scalars whose finite members are in order.
* `Double.Rank`: What a double is compared by.

## Theorems

* `Double.le_iff`, `Double.lt_iff`: Comparison of doubles is that of ranks.
* `Double.isFinite_of_between`: What lies between two finite doubles is finite.
* `Double.lt_of_not_le_number`: Of two numbers that are not in order the other
  order holds, also if they are infinite.
* `lt_of_not_le`, `le_of_not_le`: What is not below is above.
* `total`: Of two finite scalars one is not above the other.
-/

namespace Retime

/-- Scalars whose finite members are in order. -/
class OrderedScalar (α : Type) [Scalar α] : Prop where
  trans : ∀ {a b c : α}, a ≤ b → b ≤ c → a ≤ c
  le_of_lt : ∀ {a b : α}, a < b → a ≤ b
  not_lt : ∀ {a b : α}, Scalar.isFinite a → Scalar.isFinite b → (¬ a < b ↔ b ≤ a)

namespace OrderedScalar

variable {α : Type} [Scalar α] [OrderedScalar α] {a b : α}

theorem lt_of_not_le (ha : Scalar.isFinite a) (hb : Scalar.isFinite b) (h : ¬ b ≤ a) : a < b := by
  by_cases hlt : a < b
  · exact hlt
  · exact absurd ((not_lt ha hb).mp hlt) h

theorem le_of_not_le (ha : Scalar.isFinite a) (hb : Scalar.isFinite b) (h : ¬ b ≤ a) : a ≤ b :=
  le_of_lt (lt_of_not_le ha hb h)

/-- Of two finite scalars one is not above the other. -/
theorem total (ha : Scalar.isFinite a) (hb : Scalar.isFinite b) : a ≤ b ∨ b ≤ a := by
  by_cases h : a ≤ b
  · exact Or.inl h
  · exact Or.inr (le_of_not_le hb ha h)

end OrderedScalar

namespace Double

open Float.Model

/-- What a double is compared by: its class, its exponent and its mantissa. -/
structure Rank where
  kind : Int
  exponent : Int
  mantissa : Int

namespace Rank

/-- Ranks compare from left to right. -/
def Below (a b : Rank) : Prop :=
  a.kind < b.kind ∨ a.kind = b.kind ∧
    (a.exponent < b.exponent ∨ a.exponent = b.exponent ∧ a.mantissa < b.mantissa)

/-- The outcome of comparing two ranks. -/
def compare (a b : Rank) : Ordering :=
  (Ord.compare a.kind b.kind).then
    ((Ord.compare a.exponent b.exponent).then (Ord.compare a.mantissa b.mantissa))

theorem compare_eq_lt (a b : Rank) : a.compare b = .lt ↔ a.Below b := by
  simp only [compare, Below, Ordering.then_eq_lt, Int.compare_eq_lt, Int.compare_eq_eq]

theorem compare_eq_gt (a b : Rank) : a.compare b = .gt ↔ b.Below a := by
  simp only [compare, Below, Ordering.then_eq_gt, Int.compare_eq_gt, Int.compare_eq_eq]
  omega

end Rank

/-- The rank of a double. A non-number has one too, which is never looked at. -/
def rank : UnpackedFloat → Rank
  | .infinity .positive => ⟨2, 0, 0⟩
  | .finite .positive m e _ => ⟨1, e, m⟩
  | .zero _ | .notANumber => ⟨0, 0, 0⟩
  | .finite .negative m e _ => ⟨-1, -e, -m⟩
  | .infinity .negative => ⟨-2, 0, 0⟩

theorem compare_neg (a b : Int) : compare (-a) (-b) = compare b a := by
  simp only [compare, compareOfLessAndEq, Int.neg_lt_neg_iff, Int.neg_inj, eq_comm]

theorem compare_natCast (a b : Nat) : compare (a : Int) (b : Int) = compare a b := by
  simp only [compare, compareOfLessAndEq, Int.ofNat_lt, Int.natCast_inj]

/-- Two doubles that are numbers compare as their ranks do. -/
theorem compare_eq (a b : UnpackedFloat) :
    a.compare b = if a.isNaN || b.isNaN then none else some ((rank a).compare (rank b)) := by
  rcases a with ⟨_ | _⟩ | _ | _ | ⟨_ | _, m, e, hm⟩ <;>
    rcases b with ⟨_ | _⟩ | _ | _ | ⟨_ | _, m', e', hm'⟩
  -- Only within one class do the exponents and mantissas decide.
  case finite.negative.finite.negative =>
    change some ((compare e e').then (compare m m')).swap =
      some ((compare (-e) (-e')).then (compare (-(m : Int)) (-(m' : Int))))
    rw [Ordering.swap_then, Int.compare_swap, Nat.compare_swap, compare_neg, compare_neg,
      compare_natCast]
  case finite.positive.finite.positive =>
    change some ((compare e e').then (compare m m')) =
      some ((compare e e').then (compare (m : Int) (m' : Int)))
    rw [compare_natCast]
  all_goals rfl

/-- Neither of two doubles is a non-number. -/
def Numbers (a b : Float) : Prop :=
  (a.toModel.unpack.isNaN || b.toModel.unpack.isNaN) = false

theorem numbers_iff (a b : Float) :
    Numbers a b ↔ a.toModel.unpack.isNaN = false ∧ b.toModel.unpack.isNaN = false :=
  Bool.or_eq_false_iff

theorem lt_iff (a b : Float) :
    a < b ↔ Numbers a b ∧ (rank a.toModel.unpack).Below (rank b.toModel.unpack) := by
  have h : a < b ↔ (a.toModel.unpack.compare b.toModel.unpack == some .lt) = true := by
    change decide _ = true ↔ _
    rw [decide_eq_true_iff]
    rfl
  rw [h, compare_eq, beq_iff_eq, Numbers]
  cases (a.toModel.unpack.isNaN || b.toModel.unpack.isNaN) with
  | true => simp only [if_pos, reduceCtorEq, false_and]
  | false => simp only [Bool.false_eq_true, if_false, Option.some_inj, true_and, Rank.compare_eq_lt]

theorem le_iff (a b : Float) :
    a ≤ b ↔ Numbers a b ∧ ¬ (rank b.toModel.unpack).Below (rank a.toModel.unpack) := by
  have h : a ≤ b ↔ (a.toModel.unpack.compare b.toModel.unpack).any (·.isLE) = true := by
    change decide _ = true ↔ _
    rw [decide_eq_true_iff]
    rfl
  rw [h, compare_eq, Numbers]
  cases (a.toModel.unpack.isNaN || b.toModel.unpack.isNaN) with
  | true => simp only [if_pos, Option.any_none, reduceCtorEq, Bool.false_eq_true, false_and]
  | false =>
    -- Between numbers, less or equal is what is not greater.
    rw [← Rank.compare_eq_gt]
    simp only [Bool.false_eq_true, if_false, Option.any_some, true_and]
    cases (rank a.toModel.unpack).compare (rank b.toModel.unpack) <;> decide

theorem not_isNaN_of_isFinite {a : Float} (h : a.isFinite) : a.toModel.unpack.isNaN = false := by
  change a.toModel.unpack.isFinite = true at h
  cases hu : a.toModel.unpack with
  | notANumber => rw [hu] at h; cases h
  | _ => rfl

/-- The ranks of finite doubles are between those of the infinities. -/
theorem isFinite_iff {a : UnpackedFloat} (h : a.isNaN = false) :
    a.isFinite = true ↔ -2 < (rank a).kind ∧ (rank a).kind < 2 := by
  rcases a with ⟨_ | _⟩ | _ | _ | ⟨_ | _, m, e, hm⟩
  case infinity.negative => decide
  case infinity.positive => decide
  case notANumber => cases h
  case zero => exact iff_of_true rfl (show (-2 : Int) < 0 ∧ (0 : Int) < 2 by decide)
  case finite.negative => exact iff_of_true rfl (show (-2 : Int) < -1 ∧ (-1 : Int) < 2 by decide)
  case finite.positive => exact iff_of_true rfl (show (-2 : Int) < 1 ∧ (1 : Int) < 2 by decide)

/-- What lies between two finite doubles is finite. -/
theorem isFinite_of_between {a x b : Float} (ha : a.isFinite = true) (hb : b.isFinite = true)
    (hax : a ≤ x) (hxb : x ≤ b) : x.isFinite = true := by
  rw [le_iff, numbers_iff] at hax hxb
  have hlow := (isFinite_iff hax.1.1).mp ha
  have hhigh := (isFinite_iff hxb.1.2).mp hb
  refine (isFinite_iff hax.1.2).mpr ?_
  simp only [Rank.Below] at hax hxb
  omega

section Numbers

variable {a b c : Float}

theorem lt_of_lt_of_le (hab : a < b) (hbc : b ≤ c) : a < c := by
  rw [lt_iff, numbers_iff] at hab ⊢
  rw [le_iff, numbers_iff] at hbc
  simp only [Rank.Below] at hab hbc ⊢
  exact ⟨⟨hab.1.1, hbc.1.2⟩, by omega⟩

theorem lt_irrefl (a : Float) : ¬ a < a := by
  rw [lt_iff]
  simp only [Rank.Below]
  omega

/-- Of two numbers that are not in order the other order holds, also if they are
    infinite. -/
theorem lt_of_not_le_number (ha : a.toModel.unpack.isNaN = false)
    (hb : b.toModel.unpack.isNaN = false) (h : ¬ a ≤ b) : b < a := by
  rw [le_iff, numbers_iff] at h
  rw [lt_iff, numbers_iff]
  by_cases hbelow : (rank b.toModel.unpack).Below (rank a.toModel.unpack)
  · exact ⟨⟨hb, ha⟩, hbelow⟩
  · exact absurd ⟨⟨ha, hb⟩, hbelow⟩ h

/-- What is in order with anything is a number. -/
theorem le_self_of_le (h : a ≤ b) : a ≤ a ∧ b ≤ b := by
  rw [le_iff, numbers_iff] at h
  simp only [le_iff, numbers_iff, Rank.Below]
  exact ⟨⟨⟨h.1.1, h.1.1⟩, by omega⟩, ⟨⟨h.1.2, h.1.2⟩, by omega⟩⟩

end Numbers

end Double

instance : OrderedScalar Float where
  trans {a b c} hab hbc := by
    rw [Double.le_iff, Double.numbers_iff] at hab hbc ⊢
    simp only [Double.Rank.Below] at hab hbc ⊢
    exact ⟨⟨hab.1.1, hbc.1.2⟩, by omega⟩
  le_of_lt {a b} hab := by
    rw [Double.lt_iff] at hab
    rw [Double.le_iff]
    simp only [Double.Rank.Below] at hab ⊢
    exact ⟨hab.1, by omega⟩
  not_lt {a b} ha hb := by
    have hn := Double.not_isNaN_of_isFinite ha
    have hm := Double.not_isNaN_of_isFinite hb
    rw [Double.lt_iff, Double.le_iff, Double.numbers_iff, Double.numbers_iff]
    simp only [hn, hm, and_self, true_and]

end Retime
