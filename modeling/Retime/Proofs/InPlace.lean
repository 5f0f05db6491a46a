import Mathlib.Data.List.Forall2
import Retime.InPlace

/-!
# What Edits in Place Do

Inversion of the ways in which edits are put together.

Whoever wants to know what an edit leaves has to know what each of its steps
leaves, in both cases: that the step was done, and that it was refused. The
lemmas here answer this for each way of combining edits, so that no proof about
an edit opens the monad it is written in.

An edit is atomic if it leaves what it was given when it is refused. Combining
does not keep that. A first step that is done and a second that is refused
leave what the first made, so an edit of two steps is atomic only if one of
them is beyond refusal: the second, or, which happens more often, the first
because it changes nothing.

## Main definitions

* `InPlace.Atomic`: A refused edit leaves no trace.
* `InPlace.Accepts`: An edit that is never refused.
* `InPlace.Leaves`: An edit that does not touch a part of the value.

## Theorems

* `bind_eq_ok`, `bind_eq_error`: One edit after another.
* `update_eq_ok`, `update_atomic`: An edit of one step.
* `Atomic.bind_accepts`: A step that is not refused behind an atomic one.
* `each_eq_ok`, `each_mem`, `each_eq_error`: An edit of each value of a list.
* `Leaves.bind`: What two edits do not touch, the one after the other does not.
-/

namespace Retime

namespace InPlace

variable {ε σ β γ : Type}

/-- A refused edit leaves no trace. -/
def Atomic (f : InPlace ε σ β) : Prop :=
  ∀ ⦃s e t⦄, f s = .error e t → t = s

/-- An edit that is never refused. -/
def Accepts (f : InPlace ε σ β) : Prop :=
  ∀ ⦃s e t⦄, f s ≠ .error e t

theorem bind_eq_ok {f : InPlace ε σ β} {g : β → InPlace ε σ γ} {s t : σ} {c : γ} :
    (f >>= g) s = .ok c t ↔ ∃ b u, f s = .ok b u ∧ g b u = .ok c t := by
  change EStateM.bind f g s = _ ↔ _
  unfold EStateM.bind
  -- What follows runs only if the first edit was done, on what it left.
  cases f s with
  | ok b u =>
      refine ⟨fun h => ⟨b, u, rfl, h⟩, ?_⟩
      rintro ⟨b', u', hf, hg⟩
      cases hf
      exact hg
  | error e u =>
      refine ⟨(fun h => nomatch h), ?_⟩
      rintro ⟨b, u', hf, -⟩
      cases hf

theorem bind_eq_error {f : InPlace ε σ β} {g : β → InPlace ε σ γ} {s t : σ} {e : ε} :
    (f >>= g) s = .error e t ↔
      f s = .error e t ∨ ∃ b u, f s = .ok b u ∧ g b u = .error e t := by
  change EStateM.bind f g s = _ ↔ _
  unfold EStateM.bind
  -- Refused either at once or after the first edit was done.
  cases f s with
  | ok b u =>
      refine ⟨fun h => Or.inr ⟨b, u, rfl, h⟩, ?_⟩
      rintro (hf | ⟨b', u', hf, hg⟩)
      · cases hf
      · cases hf
        exact hg
  | error e' u =>
      refine ⟨fun h => Or.inl (by cases h; rfl), ?_⟩
      rintro (hf | ⟨b, u', hf, -⟩)
      · cases hf
        rfl
      · cases hf

theorem update_eq_ok {f : σ → Except ε σ} {s t : σ} {b : Unit} :
    update f s = .ok b t ↔ f s = .ok t := by
  unfold update
  cases f s with
  | ok u =>
      refine ⟨fun h => ?_, fun h => ?_⟩
      · cases h
        rfl
      · cases h
        rfl
  | error e => exact ⟨(fun h => nomatch h), fun h => nomatch h⟩

theorem update_eq_error {f : σ → Except ε σ} {s t : σ} {e : ε} :
    update f s = .error e t ↔ f s = .error e ∧ t = s := by
  unfold update
  cases f s with
  | ok u => exact ⟨(fun h => nomatch h), (fun h => nomatch h.1)⟩
  | error e' =>
      refine ⟨fun h => ?_, ?_⟩
      · cases h
        exact ⟨rfl, rfl⟩
      · rintro ⟨h, rfl⟩
        cases h
        rfl

/-- An edit of one step and a report that is known beforehand. -/
theorem update_return_eq_ok {f : σ → Except ε σ} {s t : σ} {b c : β} :
    (update f >>= fun _ => pure b : InPlace ε σ β) s = .ok c t ↔ f s = .ok t ∧ c = b := by
  rw [bind_eq_ok]
  constructor
  · rintro ⟨_, u, hu, h⟩
    cases h
    exact ⟨update_eq_ok.mp hu, rfl⟩
  · rintro ⟨h, rfl⟩
    exact ⟨(), t, update_eq_ok.mpr h, rfl⟩

theorem demand_eq_ok {r : Except ε β} {s t : σ} {b : β} :
    demand r s = .ok b t ↔ r = .ok b ∧ t = s := by
  unfold demand
  cases r with
  | ok b' =>
      refine ⟨fun h => ?_, ?_⟩
      · cases h
        exact ⟨rfl, rfl⟩
      · rintro ⟨h, rfl⟩
        cases h
        rfl
  | error e => exact ⟨(fun h => nomatch h), (fun h => nomatch h.1)⟩

/-- An edit of one step is atomic. -/
theorem update_atomic (f : σ → Except ε σ) : Atomic (update f) :=
  fun _ _ _ h => (update_eq_error.mp h).2

theorem demand_atomic (r : Except ε β) : Atomic (demand r : InPlace ε σ β) := by
  intro s e t h
  unfold demand at h
  cases r with
  | ok b => cases h
  | error e' => cases h; rfl

theorem pure_accepts (b : β) : Accepts (pure b : InPlace ε σ β) := fun _ _ _ h => nomatch h

theorem modify_accepts (f : σ → σ) : Accepts (modify f : InPlace ε σ Unit) :=
  fun _ _ _ h => nomatch h

/-- A step that is not refused behind an atomic one. -/
theorem Atomic.bind_accepts {f : InPlace ε σ β} {g : β → InPlace ε σ γ} (hf : Atomic f)
    (hg : ∀ b, Accepts (g b)) : Atomic (f >>= g) := by
  intro s e t h
  rcases bind_eq_error.mp h with h | ⟨b, u, -, h⟩
  · exact hf h
  · exact (hg b h).elim

/-- The edit behind a step that only looks. -/
theorem atomic_get_bind {g : σ → InPlace ε σ γ} (hg : ∀ s, Atomic (g s)) :
    Atomic (get >>= g) := by
  intro s e t h
  exact hg s h

/-- The edit behind a demand. -/
theorem atomic_demand_bind {r : Except ε β} {g : β → InPlace ε σ γ} (hg : ∀ b, Atomic (g b)) :
    Atomic (demand r >>= g) := by
  intro s e t h
  rcases bind_eq_error.mp h with h | ⟨b, u, hu, h⟩
  · exact demand_atomic r h
  · rw [hg b h, (demand_eq_ok.mp hu).2]

/-- A list that is edited without refusal is edited at each element. -/
theorem each_eq_ok {f : InPlace ε σ Unit} {l l' : List σ} {b : Unit}
    (h : each f l = .ok b l') : List.Forall₂ (fun s t => f s = .ok () t) l l' := by
  -- The first element is edited before the others, and all of them are.
  induction l generalizing l' with
  | nil => cases h; exact List.Forall₂.nil
  | cons s l ih =>
      unfold each at h
      cases hs : f s with
      | error e t => rw [hs] at h; cases h
      | ok b t =>
          rw [hs] at h
          cases hl : each f l with
          | error e l'' => rw [hl] at h; cases h
          | ok b' l'' =>
              rw [hl] at h
              cases h
              exact List.Forall₂.cons hs (ih hl)

/-- What is in an edited list was edited. -/
theorem each_mem {f : InPlace ε σ Unit} {l l' : List σ} {b : Unit} (h : each f l = .ok b l') :
    ∀ t ∈ l', ∃ s ∈ l, f s = .ok () t := by
  -- The induction is on how the two lists go together.
  have hall := each_eq_ok h
  clear h
  induction hall with
  | nil => exact fun t ht => nomatch ht
  | @cons s t l l' hst _ ih =>
      intro u hu
      rcases List.mem_cons.mp hu with rfl | hu
      · exact ⟨s, List.mem_cons_self, hst⟩
      · rcases ih u hu with ⟨r, hr, hfr⟩
        exact ⟨r, List.mem_cons_of_mem s hr, hfr⟩

/-- Where an edit of a list is refused, it is refused at an element. -/
theorem each_eq_error {f : InPlace ε σ Unit} {l l' : List σ} {e : ε}
    (h : each f l = .error e l') : ∃ s ∈ l, ∃ t, f s = .error e t := by
  induction l generalizing l' with
  | nil => cases h
  | cons s l ih =>
      unfold each at h
      cases hs : f s with
      | error e' t =>
          rw [hs] at h
          cases h
          exact ⟨s, List.mem_cons_self, t, hs⟩
      | ok b t =>
          rw [hs] at h
          cases hl : each f l with
          | error e' l'' =>
              rw [hl] at h
              cases h
              -- The refusal came from further on in the list.
              rcases ih hl with ⟨r, hr, hfr⟩
              exact ⟨r, List.mem_cons_of_mem s hr, hfr⟩
          | ok b' l'' => rw [hl] at h; cases h

/-! ### Parts that are left alone -/

variable {δ : Type} {view : σ → δ}

/-- An edit does not touch a part of the value, done or refused. -/
def Leaves (view : σ → δ) (f : InPlace ε σ β) : Prop :=
  ∀ s, view (left (f s)) = view s

theorem leaves_get : Leaves view (get : InPlace ε σ σ) := fun _ => rfl

theorem leaves_demand (r : Except ε β) : Leaves view (demand r : InPlace ε σ β) := by
  intro s
  unfold demand
  cases r <;> rfl

/-- What two edits do not touch, the one after the other does not. -/
theorem Leaves.bind {f : InPlace ε σ β} {g : β → InPlace ε σ γ} (hf : Leaves view f)
    (hg : ∀ b, Leaves view (g b)) : Leaves view (f >>= g) := by
  intro s
  change view (left (EStateM.bind f g s)) = view s
  have hfirst := hf s
  unfold EStateM.bind
  -- A refusal leaves what the first edit left, so both cases follow from it.
  cases hs : f s with
  | ok b t =>
      rw [hs] at hfirst
      exact (hg b t).trans hfirst
  | error e t =>
      rw [hs] at hfirst
      exact hfirst

end InPlace

end Retime
