/-!
# Edits in Place

An edit that works on a value where it stands, and may be refused half way.

An edit of several steps that is refused at a later one has taken the earlier
ones already. So a refusal hands back what the edit has made of the value by
then, and not what the edit was given. That a refused edit leaves no trace is
a fact about each edit, to be proved of its steps, and nothing that follows
from the type.

## Main definitions

* `InPlace`: An edit in place.
* `InPlace.left`: The value that an edit leaves, done or refused.
* `InPlace.outcome`: An edit as a function that forgets refused values.
* `InPlace.update`: Puts another value in the place of the present one.
* `InPlace.each`: One edit for each value of a list, until one is refused.
-/

namespace Retime

/-- An edit of a `σ` in place. It reports a `β` or is refused for an `ε`, and
    leaves a `σ` in either case. -/
abbrev InPlace (ε σ β : Type) : Type := EStateM ε σ β

namespace InPlace

variable {ε σ β : Type}

/-- The value that an edit leaves, done or refused. -/
def left : EStateM.Result ε σ β → σ
  | .ok _ s => s
  | .error _ s => s

/-- What an edit makes of a value together with its report. What a refused
    edit leaves is forgotten. -/
def outcome (f : InPlace ε σ β) (s : σ) : Except ε (σ × β) :=
  match f s with
  | .ok b s => .ok (s, b)
  | .error e _ => .error e

/-- Reports a value, or refuses. -/
def demand (r : Except ε β) : InPlace ε σ β := fun s =>
  match r with
  | .ok b => .ok b s
  | .error e => .error e s

/-- Puts what a function gives in the place of the present value. -/
def update (f : σ → Except ε σ) : InPlace ε σ Unit := fun s =>
  match f s with
  | .ok s => .ok () s
  | .error e => .error e s

/-- Edits the values of a list one after the other. Those in front of one that
    is refused are edited, and those behind it are not. -/
def each (f : InPlace ε σ Unit) : InPlace ε (List σ) Unit
  | [] => .ok () []
  | s :: ss =>
    match f s with
    | .error e s => .error e (s :: ss)
    | .ok _ s =>
      match each f ss with
      | .error e ss => .error e (s :: ss)
      | .ok _ ss => .ok () (s :: ss)

end InPlace

end Retime
