import Mathlib.Data.List.TakeWhile
import Retime.Json.Reader
import Retime.Json.Writer
import Retime.Proofs.Outcome

/-!
# Written Tokens

Numbers and strings as a document writes them, read where they stand.

A number has no end of its own: it goes on as long as what follows can be a
part of it. So a number that is read from a text of its own is read in front of
another text as well, if that begins with nothing that belongs to a number.
`Ends` says this of a text. A string ends with its quote, whatever follows.

Nothing is said here about the digits that a double is written with. Which
double they denote when they are read is a matter of rounding; what is used is
only of which characters they consist.

## Main definitions

* `Ends`: A text that a number in front of it does not go on into.
* `Spelling.ofInt`: The spelling of a whole number.

## Theorems

* `Source.readNumber_append`: A number is read in front of a text.
* `Spelling.number?_ofInt`: The spelling of a whole number denotes it.
* `Source.readString_quoted`: A written string is read as itself.
-/

namespace Retime

/-- A text that does not begin with what a number could go on with. -/
def Ends (cs : List Char) : Prop :=
  ∀ c ∈ cs.head?, c.isDigit = false ∧ c ≠ '.' ∧ c ≠ 'e' ∧ c ≠ 'E'

theorem ends_nil : Ends [] := nofun

theorem ends_cons {c : Char} {cs : List Char}
    (h : c.isDigit = false ∧ c ≠ '.' ∧ c ≠ 'e' ∧ c ≠ 'E') : Ends (c :: cs) := by
  intro d hd
  cases hd
  exact h

namespace Text

theorem isDigit_of_mem_digits {n : Nat} {c : Char} (h : c ∈ digits n) : c.isDigit = true :=
  Nat.isDigit_of_mem_toDigits (by decide) (by decide) h

theorem value_digits (n : Nat) : value (digits n) = n :=
  Nat.ofDigitChars_ten_toDigits

/-- Digits start with a zero only if that is all there is. -/
theorem digits_cases (n : Nat) :
    digits n = ['0'] ∨ ∃ c cs, digits n = c :: cs ∧ c ≠ '0' ∧ c.isDigit = true := by
  induction n using Nat.strongRecOn with
  | _ n ih =>
    have hdigits := Nat.toDigits_eq_if (b := 10) (n := n) (by decide)
    change digits n = _ at hdigits
    by_cases hn : n < 10
    · rw [if_pos hn] at hdigits
      rw [hdigits]
      have hall : ∀ k < 10, [k.digitChar] = ['0'] ∨
          ∃ c cs, [k.digitChar] = c :: cs ∧ c ≠ '0' ∧ c.isDigit = true := by
        intro k hk
        by_cases hk0 : k = 0
        · exact Or.inl (by rw [hk0]; rfl)
        · refine Or.inr ⟨_, _, rfl, ?_⟩
          revert hk0
          revert k
          decide
      exact hall n hn
    · rw [if_neg hn] at hdigits
      rw [hdigits]
      -- The digits in front of the last are those of a number that is not zero.
      rcases ih (n / 10) (by omega) with h | ⟨c, cs, h, hc⟩
      · have hvalue := value_digits (n / 10)
        rw [h] at hvalue
        have hzero : value ['0'] = 0 := rfl
        omega
      · refine Or.inr ⟨c, cs ++ [(n % 10).digitChar], ?_, hc⟩
        change digits (n / 10) ++ _ = _
        rw [h]
        rfl

end Text

namespace Source

section Numbers

variable {rest : List Char}

theorem spanDigits_append (h : Ends rest) (cs : List Char) :
    Numeral.spanDigits (cs ++ rest) =
      ((Numeral.spanDigits cs).1, (Numeral.spanDigits cs).2 ++ rest) := by
  induction cs with
  | nil =>
      -- A token ends where no digit follows.
      cases rest with
      | nil => rfl
      | cons c rest =>
          have hc : ¬ c.isDigit = true := by
            rw [(h c rfl).1]
            exact Bool.false_ne_true
          simp [Numeral.spanDigits, hc]
  | cons c cs ih =>
      simp only [Numeral.spanDigits, Prod.mk.injEq] at ih ⊢
      by_cases hc : c.isDigit = true
      · simp [hc, ih.1, ih.2]
      · simp [hc]

theorem readDigits_append (h : Ends rest) {cs ds tail : List Char}
    (hr : readDigits cs = .ok (ds, tail)) : readDigits (cs ++ rest) = .ok (ds, tail ++ rest) := by
  unfold readDigits at hr ⊢
  rw [spanDigits_append h]
  generalize Numeral.spanDigits cs = part at hr
  rcases part with ⟨_ | ⟨d, ds'⟩, _ | ⟨c, tail'⟩⟩
  · cases hr
  · cases hr
  · cases hr
    rfl
  · cases hr
    rfl

theorem readWhole_cons {c : Char} (hc : c ≠ '0') (cs : List Char) :
    readWhole (c :: cs) =
      if c.isDigit then .ok (Numeral.spanDigits (c :: cs)) else .error .malformed := by
  unfold readWhole
  split
  · contradiction
  · next h => exact absurd (List.cons.inj h).1 hc
  · next h =>
      rcases List.cons.inj h with ⟨rfl, rfl⟩
      rfl

theorem readWhole_append (h : Ends rest) {cs ds tail : List Char}
    (hr : readWhole cs = .ok (ds, tail)) : readWhole (cs ++ rest) = .ok (ds, tail ++ rest) := by
  match cs, hr with
  | c :: cs, hr =>
      by_cases hc : c = '0'
      -- A zero that stands first is the whole number, and no digit may follow.
      · subst hc
        cases cs with
        | nil =>
            cases hr
            cases rest with
            | nil => rfl
            | cons c rest =>
                change (if c.isDigit = true then _ else _) = _
                rw [(h c rfl).1]
                rfl
        | cons c cs =>
            change (if c.isDigit = true then _ else _) = _ at hr
            change (if c.isDigit = true then _ else _) = _
            by_cases hdigit : c.isDigit = true
            · rw [if_pos hdigit] at hr
              cases hr
            · rw [if_neg hdigit] at hr ⊢
              cases hr
              rfl
      · rw [List.cons_append, readWhole_cons hc, ← List.cons_append, spanDigits_append h]
        rw [readWhole_cons hc] at hr
        by_cases hdigit : c.isDigit = true
        · rw [if_pos hdigit] at hr ⊢
          cases hr
          rfl
        · rw [if_neg hdigit] at hr
          cases hr

theorem readFraction_append (h : Ends rest) {cs tail : List Char} {places : Option (List Char)}
    (hr : readFraction cs = .ok (places, tail)) :
    readFraction (cs ++ rest) = .ok (places, tail ++ rest) := by
  -- Without a point there is no fraction, and nothing is read.
  have hnone : ∀ cs : List Char, (∀ c ∈ cs.head?, c ≠ '.') → readFraction cs = .ok (none, cs) := by
    intro cs hcs
    match cs, hcs with
    | [], _ => rfl
    | c :: cs, hcs =>
        unfold readFraction
        split
        · next heq => exact absurd (List.cons.inj heq).1 (hcs c rfl)
        · rfl
  match cs, hr with
  | [], hr =>
      cases hr
      exact hnone rest fun c hc => (h c hc).2.1
  | c :: cs, hr =>
      by_cases hc : c = '.'
      · subst hc
        rcases bind_ok_iff.mp hr with ⟨⟨ds, tail'⟩, hdigits, hr⟩
        cases hr
        exact bind_ok_iff.mpr ⟨_, readDigits_append h hdigits, rfl⟩
      · rw [hnone (c :: cs) (by rintro _ ⟨⟩; exact hc)] at hr
        cases hr
        exact hnone _ (by rintro _ ⟨⟩; exact hc)

/-- The sign of an exponent, and its digits. -/
def exponentSign : List Char → Bool × List Char
  | '-' :: cs => (true, cs)
  | '+' :: cs => (false, cs)
  | cs => (false, cs)

theorem exponentSign_append {cs : List Char} (hcs : cs ≠ []) (rest : List Char) :
    exponentSign (cs ++ rest) = ((exponentSign cs).1, (exponentSign cs).2 ++ rest) := by
  match cs, hcs with
  | c :: cs, _ =>
      rw [List.cons_append]
      unfold exponentSign
      split
      · next h =>
          rcases List.cons.inj h with ⟨rfl, rfl⟩
          rfl
      · next h =>
          rcases List.cons.inj h with ⟨rfl, rfl⟩
          rfl
      -- What has no sign in front of the rest has none alone.
      · next hminus hplus =>
          split
          · next h => exact absurd (congrArg (· ++ rest) h) (hminus _)
          · next h => exact absurd (congrArg (· ++ rest) h) (hplus _)
          · rfl

theorem readExponent_cons {c : Char} (hc : c = 'e' ∨ c = 'E') (cs : List Char) :
    readExponent (c :: cs) = (do
      let (ds, rest) ← readDigits (exponentSign cs).2
      let n : Int := Text.value ds
      return (some (if (exponentSign cs).1 then -n else n), rest)) :=
  if_pos hc

theorem readExponent_append (h : Ends rest) {cs tail : List Char} {exponent : Option Int}
    (hr : readExponent cs = .ok (exponent, tail)) :
    readExponent (cs ++ rest) = .ok (exponent, tail ++ rest) := by
  match cs, hr with
  | [], hr =>
      cases hr
      cases rest with
      | nil => rfl
      | cons c rest => exact if_neg (not_or.mpr ((h c rfl).2.2))
  | c :: cs, hr =>
      by_cases hc : c = 'e' ∨ c = 'E'
      · rw [readExponent_cons hc] at hr
        rcases bind_ok_iff.mp hr with ⟨⟨ds, tail'⟩, hdigits, hr⟩
        cases hr
        -- The digits of the exponent are not missing, so its sign is looked for in
        -- front of the rest.
        have hcs : cs ≠ [] := by
          rintro rfl
          cases hdigits
        rw [List.cons_append, readExponent_cons hc, exponentSign_append hcs]
        exact bind_ok_iff.mpr ⟨_, readDigits_append h hdigits, rfl⟩
      · have hnone : ∀ cs, readExponent (c :: cs) = .ok (none, c :: cs) := fun _ => if_neg hc
        rw [hnone] at hr
        cases hr
        exact hnone _

/-- A number is read in front of a text as it is read alone. -/
theorem readNumber_append (h : Ends rest) {negative : Bool} {cs tail : List Char} {v : Source}
    (hr : readNumber negative cs = .ok (v, tail)) :
    readNumber negative (cs ++ rest) = .ok (v, tail ++ rest) := by
  rcases bind_ok_iff.mp hr with ⟨⟨whole, tail₁⟩, hwhole, hr⟩
  rcases bind_ok_iff.mp hr with ⟨⟨places, tail₂⟩, hplaces, hr⟩
  rcases bind_ok_iff.mp hr with ⟨⟨exponent, tail₃⟩, hexponent, hr⟩
  cases hr
  exact bind_ok_iff.mpr ⟨_, readWhole_append h hwhole, bind_ok_iff.mpr
    ⟨_, readFraction_append h hplaces, bind_ok_iff.mpr
      ⟨_, readExponent_append h hexponent, rfl⟩⟩⟩

/-- The digits of a natural number are read as a whole number. -/
theorem readNumber_digits (negative : Bool) (n : Nat) :
    readNumber negative (Text.digits n) =
      .ok (.number ⟨negative, Text.digits n, none, none⟩, []) := by
  have hspan : Numeral.spanDigits (Text.digits n) = (Text.digits n, []) := by
    have hall : ∀ c ∈ Text.digits n, c.isDigit = true := fun c hc => Text.isDigit_of_mem_digits hc
    rw [Numeral.spanDigits, List.takeWhile_eq_self_iff.mpr hall,
      List.dropWhile_eq_nil_iff.mpr hall]
  -- Zero is read alone, and any other number from its first digit on.
  have hwhole : readWhole (Text.digits n) = .ok (Text.digits n, []) := by
    rcases Text.digits_cases n with h | ⟨c, cs, h, hc, hdigit⟩
    · rw [h]
      rfl
    · rw [h] at hspan ⊢
      rw [readWhole_cons hc, if_pos hdigit, hspan]
  exact bind_ok_iff.mpr ⟨_, hwhole, rfl⟩

end Numbers

end Source

/-- The spelling of a whole number. -/
def Spelling.ofInt (n : Int) : Spelling :=
  ⟨decide (n < 0), Text.digits n.natAbs, none, none⟩

/-- The spelling of a whole number denotes it. -/
theorem Spelling.number?_ofInt {α : Type} [Scalar α] {n : Int}
    (h : -0x8000000000000000 ≤ n ∧ n < UInt64.size) :
    (ofInt n).number? = some (.whole n : Number α) := by
  have hvalue : Text.value (ofInt n).whole = n.natAbs := Text.value_digits _
  have hsign : (if (ofInt n).negative = true then -(n.natAbs : Int) else n.natAbs) = n := by
    have hnegative : (ofInt n).negative = decide (n < 0) := rfl
    rw [hnegative]
    by_cases hn : n < 0
    · rw [if_pos (decide_eq_true hn)]
      omega
    · rw [if_neg (fun h => hn (of_decide_eq_true h))]
      omega
  -- Only a negative zero would be read as a double.
  have hzero : ¬ ((ofInt n).negative = true ∧ n.natAbs = 0) := by
    rintro ⟨hn, hzero⟩
    have := of_decide_eq_true hn
    omega
  unfold number?
  dsimp only
  rw [hvalue, hsign]
  exact if_pos ⟨rfl, hzero, h⟩

namespace Source

section Strings

theorem hexUnit?_hexDigit {n : Nat} (h : n < 0x20) :
    hexUnit? '0' '0' (Json.hexDigit (n / 16)) (Json.hexDigit n) = some n := by
  revert h
  revert n
  decide

/-- A written character is read as itself. -/
theorem readUnits_escape (c : Char) (cs : List Char) :
    readUnits (Json.escape c ++ cs) = (c.toNat :: (readUnits cs).1, (readUnits cs).2) := by
  -- One case for each escape that the writer has.
  unfold Json.escape
  split
  · next h => subst h; rfl
  split
  · next h => subst h; rfl
  split
  · next h => subst h; rfl
  split
  · next h => subst h; rfl
  split
  · next h => subst h; rfl
  split
  · next h => subst h; rfl
  split
  · next h => subst h; rfl
  split
  · next h =>
      simp only [List.cons_append, List.nil_append]
      rw [readUnits, hexUnit?_hexDigit h]
  -- What is written as it is begins neither an escape nor the end.
  · next hquote hslash _ _ _ _ _ hlow =>
      rw [List.singleton_append, readUnits.eq_def]
      split
      · contradiction
      · next h => exact absurd (List.cons.inj h).1 hquote
      · next h => exact absurd (List.cons.inj h).1 hslash
      · next h => exact absurd (List.cons.inj h).1 hslash
      · next h => exact absurd (List.cons.inj h).1 hslash
      · next h => exact absurd (List.cons.inj h).1 hslash
      · next h =>
          rcases List.cons.inj h with ⟨rfl, rfl⟩
          rw [if_neg hlow]

theorem readUnits_flatMap_escape (cs rest : List Char) :
    readUnits (cs.flatMap Json.escape ++ '"' :: rest) = (cs.map Char.toNat, .ok rest) := by
  induction cs with
  | nil => rfl
  | cons c cs ih =>
      rw [List.flatMap_cons, List.append_assoc, readUnits_escape, ih]
      rfl

/-- No character is half of a surrogate pair. -/
theorem joinUnits?_toNat (cs : List Char) : joinUnits? (cs.map Char.toNat) = some cs := by
  induction cs with
  | nil => rfl
  | cons c cs ih =>
      -- No character is a half of a pair.
      have hvalid : c.toNat < 0xD800 ∨ 0xDFFF < c.toNat := by
        rcases c.valid with h | h
        · exact Or.inl h
        · exact Or.inr h.1
      have hleads : ¬ leads c.toNat = true := by
        rw [leads, Bool.and_eq_true, decide_eq_true_iff, decide_eq_true_iff]
        omega
      have htrails : ¬ trails c.toNat = true := by
        rw [trails, Bool.and_eq_true, decide_eq_true_iff, decide_eq_true_iff]
        omega
      rw [List.map_cons, joinUnits?.eq_def]
      dsimp only
      rw [if_neg hleads, if_neg htrails, ih, Char.ofNat_toNat]
      rfl

/-- A written string is read as itself, from behind its opening quote. -/
theorem readString_quoted (s : String) (rest : List Char) :
    readString (s.toList.flatMap Json.escape ++ '"' :: rest) = .ok (.ok s, rest) := by
  unfold readString
  rw [readUnits_flatMap_escape]
  dsimp only
  rw [joinUnits?_toNat]
  dsimp only
  rw [String.ofList_toList]

end Strings

end Source

end Retime
