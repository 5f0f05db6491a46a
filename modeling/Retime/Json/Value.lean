import Retime.Scalar

/-!
# JSON Values

The values that documents are written from, and that are kept of a document
where nothing in it is interpreted.

The members of an object stay in a list, as written documents have an order.
What is kept uninterpreted, though, is a map: it is ordered by its keys, and
of two members with one key the later counts. `put` builds such a map, one
member at a time.

## Main definitions

* `Number`: A whole number, or a scalar.
* `Json`: A value.
* `Json.put`: A member put into a map that is ordered by its keys.
-/

namespace Retime

/-- A number of a document. Whole numbers are apart from scalars because they
    are written differently, and because some hold more digits. -/
inductive Number (α : Type) where
  /-- A whole number of up to 64 bits. -/
  | whole (n : Int)
  /-- Any other number. -/
  | real (x : α)
deriving Repr

/-- A number as a scalar. -/
def Number.toScalar {α : Type} [Scalar α] : Number α → α
  | .whole n => Scalar.ofInt n
  | .real x => x

/-- A value of a document. -/
inductive Json (α : Type) where
  | null
  | bool (b : Bool)
  | number (n : Number α)
  | string (s : String)
  | array (items : List (Json α))
  | object (members : List (String × Json α))

namespace Json

variable {α : Type}

instance : Inhabited (Json α) := ⟨null⟩

/-- A scalar as a value. -/
def real (x : α) : Json α :=
  number (.real x)

/-- A natural number as a value. -/
def nat (n : Nat) : Json α :=
  number (.whole n)

/-- A member put into a map that is ordered by its keys. One that is there
    under the same key gives way. -/
def put {β : Type} (key : String) (v : β) : List (String × β) → List (String × β)
  | [] => [(key, v)]
  | (k, w) :: rest =>
    if key < k then (key, v) :: (k, w) :: rest
    else if key = k then (key, v) :: rest
    else (k, w) :: put key v rest

/-- The map of a list of members. -/
def mapOf {β : Type} (members : List (String × β)) : List (String × β) :=
  members.foldl (fun map m => put m.1 m.2 map) []

/-- The member that an option stands for: none if it is not set. -/
def member? (key : String) (v : Option (Json α)) : List (String × Json α) :=
  match v with
  | some v => [(key, v)]
  | none => []

end Json

end Retime
