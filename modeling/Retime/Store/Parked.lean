import Retime.Pair.Basic

/-!
# Parked Pairs

The pairs that were undone and can be brought back.

Undoing the creation of a pair takes it off the store with everything that
belongs to it and parks it here. The pair that was parked last comes back
first. Only so many pairs are kept: parking one more loses the oldest.

## Main definitions

* `Parked`: Pairs that can be brought back, and how many are kept.
* `Parked.push`, `Parked.pop`: Parking a pair, and taking one back.
-/

namespace Retime

/-- Pairs that can be brought back. -/
structure Parked (α : Type) where
  /-- The pairs, the latest first. -/
  pairs : List (Pair α)
  /-- How many pairs are kept. -/
  limit : Nat

namespace Parked

variable {α : Type}

/-- No pairs, of which a number can be kept; at least one always can. -/
def empty (limit : Nat) : Parked α :=
  ⟨[], max limit 1⟩

/-- The number of pairs that a store keeps. -/
def storeLimit : Nat := 100

/-- Parks a pair. The oldest is lost if there are too many. -/
def push (p : Pair α) (h : Parked α) : Parked α :=
  { h with pairs := (p :: h.pairs).take h.limit }

/-- Takes the latest pair back. -/
def pop (h : Parked α) : Option (Pair α × Parked α) :=
  match h.pairs with
  | [] => none
  | p :: pairs => some (p, { h with pairs })

/-- The latest pair. -/
def peek (h : Parked α) : Option (Pair α) :=
  h.pairs.head?

/-- Loses all pairs. -/
def clear (h : Parked α) : Parked α :=
  { h with pairs := [] }

end Parked

end Retime
