import Mathlib.Data.List.Forall2

/-!
# What May Be Refused

Inversion of the ways in which computations that may be refused are put
together: what an accepted whole says of its parts.

## Theorems

* `bind_ok_iff`: One computation after another.
* `map_ok_iff`: A computation with its result changed.
* `toOption_eq_some_iff`: A computation whose refusals are not told apart.
* `mapM_ok_iff`: One computation for each value of a list.
* `exists_of_mem_right`, `exists_forall₂`: Lists that are related one by one.
-/

namespace Retime

variable {ε β γ : Type}

theorem bind_ok_iff {r : Except ε β} {f : β → Except ε γ} {c : γ} :
    (r >>= f) = .ok c ↔ ∃ b, r = .ok b ∧ f b = .ok c := by
  cases r with
  | error e => exact ⟨(fun h => nomatch h), fun ⟨_, h, _⟩ => nomatch h⟩
  | ok b =>
      refine ⟨fun h => ⟨b, rfl, h⟩, ?_⟩
      rintro ⟨b', hb, h⟩
      cases hb
      exact h

theorem map_ok_iff {r : Except ε β} {f : β → γ} {c : γ} :
    r.map f = .ok c ↔ ∃ b, r = .ok b ∧ f b = c := by
  cases r with
  | error e => exact ⟨(fun h => nomatch h), fun ⟨_, h, _⟩ => nomatch h⟩
  | ok b =>
      refine ⟨fun h => ⟨b, rfl, Except.ok.inj h⟩, ?_⟩
      rintro ⟨b', hb, h⟩
      cases hb
      exact congrArg Except.ok h

theorem toOption_eq_some_iff {r : Except ε β} {b : β} : r.toOption = some b ↔ r = .ok b := by
  cases r with
  | error e => exact iff_of_false nofun nofun
  | ok b' =>
      change some b' = some b ↔ _
      rw [Option.some.injEq, Except.ok.injEq]

theorem mapM_ok_iff {f : β → Except ε γ} {bs : List β} {cs : List γ} :
    bs.mapM f = .ok cs ↔ List.Forall₂ (fun b c => f b = .ok c) bs cs := by
  -- The induction is on what the list is made from, since the row of results follows it.
  induction bs generalizing cs with
  | nil =>
      rw [List.mapM_nil]
      constructor
      · intro h
        cases h
        exact List.Forall₂.nil
      · intro h
        cases h
        rfl
  | cons b bs ih =>
      rw [List.mapM_cons, bind_ok_iff]
      constructor
      · rintro ⟨c, hc, h⟩
        rcases bind_ok_iff.mp h with ⟨cs', hcs, h⟩
        cases h
        exact List.Forall₂.cons hc (ih.mp hcs)
      · intro h
        cases h with
        | @cons _ c _ cs hc hcs =>
            exact ⟨c, hc, bind_ok_iff.mpr ⟨cs, ih.mpr hcs, rfl⟩⟩

/-- What is related to a list was related one by one. -/
theorem exists_of_mem_right {R : β → γ → Prop} {bs : List β} {cs : List γ}
    (h : List.Forall₂ R bs cs) {c : γ} (hc : c ∈ cs) : ∃ b ∈ bs, R b c := by
  induction h with
  | nil => exact nomatch hc
  | cons hR _ ih =>
      rcases List.mem_cons.mp hc with rfl | hc
      · exact ⟨_, List.mem_cons_self, hR⟩
      · rcases ih hc with ⟨b, hb, hR⟩
        exact ⟨b, List.mem_cons_of_mem _ hb, hR⟩

/-- Values that are each related to something are related as a list. -/
theorem exists_forall₂ {R : β → γ → Prop} {bs : List β} (h : ∀ b ∈ bs, ∃ c, R b c) :
    ∃ cs, List.Forall₂ R bs cs := by
  induction bs with
  | nil => exact ⟨[], List.Forall₂.nil⟩
  | cons b bs ih =>
      rcases List.forall_mem_cons.mp h with ⟨⟨c, hc⟩, hbs⟩
      rcases ih hbs with ⟨cs, hcs⟩
      exact ⟨c :: cs, List.Forall₂.cons hc hcs⟩

end Retime
