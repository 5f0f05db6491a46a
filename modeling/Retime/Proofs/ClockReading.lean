import Mathlib.Data.List.DropRight
import Mathlib.Tactic.Positivity
import Retime.Frame.ClockText
import Retime.Proofs.CropGrammar
import Retime.Proofs.DoubleWhole

/-!
# Reading the Clock

What a clock shows is read back as the duration it stands for.

A text is read without knowing how it was made. There may be a minus sign, then up
to three rows of digits with colons between them, then a point and one more row. An
hour is sixty minutes and a minute is sixty seconds, and that is all a reader needs
to know. So there are many texts of one duration, as `90` and `1:30` are.

One of them is shown. A duration comes to a whole number of milliseconds,
and hours, minutes, seconds and the fraction are divided out of it, so that they
make it up again when they are read. No part could be shorter. There is no group in
front that is zero and no zero in front of the first, and the fraction has no zero
at its end. Where a group has another in front of it, it has two digits and is below
sixty.

Two durations are therefore shown alike only if they come to the same number of
milliseconds. A double comes to what the product with a thousand rounds to, and that
product is a double too. Half way between two milliseconds it may lie on either side.

## Main definitions

* `ClockText.Parts`: What a text of a duration is made of.
* `ClockText.read?`: Reads a text as a duration.
* `ClockText.Parts.seconds`: How many seconds the parts make up.
* `ClockText.Compact`, `ClockText.Parts.IsTidy`: Groups and parts that could not be
  shorter.
* `ClockText.partsOf`: The parts of a signed number of milliseconds.
* `ClockText.Shows`: A text is read as a number of milliseconds.
* `Double.InMillis`, `Exact.InMillis`: What a duration comes to.

## Theorems

* `Text.fractionValue_append_zeros`: Zeros at the end of a fraction mean nothing.
* `ClockText.Parts.IsReadable.read?_text`: What is made of parts is read as them.
* `ClockText.seconds_partsOf`: The parts of a number make up that number.
* `ClockText.isTidy_partsOf`: None of them could be shorter.
* `ClockText.clockText_eq`: The text of a duration is made of those parts.
* `clock_texts_read_back`: What is shown is read back, and stands for nothing else.
-/

namespace Retime

namespace Text

/-! ### Rows of digits -/

variable {ds : List Char}

/-- A row of one or more digits. -/
def IsRow (ds : List Char) : Prop :=
  ds ≠ [] ∧ ∀ c ∈ ds, c.isDigit = true

instance (ds : List Char) : Decidable (IsRow ds) :=
  decidable_of_iff (ds ≠ [] ∧ ds.all Char.isDigit = true)
    (and_congr_right fun _ => List.all_eq_true)

/-- There is nothing but digits in a row. -/
theorem IsRow.notMem (h : IsRow ds) {c : Char} (hc : c.isDigit = false) : c ∉ ds := fun hmem => by
  have hdigit := h.2 c hmem
  rw [hc] at hdigit
  cases hdigit

theorem IsPlain.isRow (h : IsPlain ds) : IsRow ds :=
  ⟨h.1, h.2.1⟩

theorem isDigit_of_mem_zeros {n : ℕ} {c : Char} (h : c ∈ List.replicate n '0') :
    c.isDigit = true := by
  rw [(List.mem_replicate.mp h).2]
  rfl

/-- Zeros in front of a row of digits. -/
theorem value_padLeft (width : ℕ) (ds : List Char) : value (padLeft '0' width ds) = value ds := by
  change Nat.ofDigitChars 10 (List.replicate (width - ds.length) '0' ++ ds) 0 = _
  rw [Nat.ofDigitChars_append, Nat.ofDigitChars_replicate_zero, mul_zero]
  rfl

/-- Zeros behind a row of digits. -/
theorem value_append_zeros (ds : List Char) (n : ℕ) :
    value (ds ++ List.replicate n '0') = 10 ^ n * value ds := by
  change Nat.ofDigitChars 10 (ds ++ List.replicate n '0') 0 = _
  rw [Nat.ofDigitChars_append, Nat.ofDigitChars_replicate_zero]
  rfl

/-- What a row of digits behind a point adds. -/
def fractionValue (ds : List Char) : ℚ :=
  value ds / 10 ^ ds.length

/-- Zeros at the end of a fraction mean nothing. -/
theorem fractionValue_append_zeros (ds : List Char) (n : ℕ) :
    fractionValue (ds ++ List.replicate n '0') = fractionValue ds := by
  unfold fractionValue
  rw [value_append_zeros, List.length_append, List.length_replicate, pow_add, mul_comm (10 ^ n)]
  push_cast
  exact mul_div_mul_right _ _ (by positivity)

/-- A row of digits without the zeros at its end. -/
def trimZeros (ds : List Char) : List Char :=
  ds.rdropWhile (· == '0')

theorem exists_trimZeros (ds : List Char) : ∃ n, ds = trimZeros ds ++ List.replicate n '0' := by
  have hzeros : ∀ c ∈ ds.rtakeWhile (· == '0'), c = '0' := by
    intro c hc
    have hzero := List.mem_rtakeWhile_imp hc
    exact beq_iff_eq.mp hzero
  refine ⟨(ds.rtakeWhile (· == '0')).length, ?_⟩
  rw [← List.eq_replicate_of_mem hzeros]
  exact List.rdropWhile_append_rtakeWhile.symm

theorem getLast?_trimZeros (ds : List Char) : (trimZeros ds).getLast? ≠ some '0' := by
  intro hlast
  have hne : trimZeros ds ≠ [] := by
    rintro hnil
    rw [hnil] at hlast
    cases hlast
  rw [List.getLast?_eq_some_getLast hne] at hlast
  exact List.rdropWhile_last_not _ ds hne (beq_iff_eq.mpr (Option.some.inj hlast))

/-- A number brought to a width that it has room in. -/
theorem padLeft_digits (n : ℕ) {width : ℕ} (hwidth : 0 < width) (h : n < 10 ^ width) :
    (padLeft '0' width (digits n)).length = width ∧ IsRow (padLeft '0' width (digits n)) := by
  have hle : (digits n).length ≤ width := (Nat.length_toDigits_le_iff (by decide) hwidth).mpr h
  have hlength : (padLeft '0' width (digits n)).length = width := by
    rw [padLeft, List.length_append, List.length_replicate]
    omega
  refine ⟨hlength, fun hnil => ?_, fun c hc => ?_⟩
  · rw [hnil] at hlength
    exact hwidth.ne hlength
  · rcases List.mem_append.mp hc with hc | hc
    · exact isDigit_of_mem_zeros hc
    · exact isDigit_of_mem_digits hc

/-- Rows of digits with a separator between them. -/
theorem joined_intercalate (sep : Char) {rows : List (List Char)} (hne : rows ≠ [])
    (hrows : ∀ r ∈ rows, IsRow r) :
    Joined sep (fun r p => p = r ∧ IsRow r) rows ([sep].intercalate rows) := by
  induction rows with
  | nil => exact absurd rfl hne
  | cons r rows ih =>
      rcases List.forall_mem_cons.mp hrows with ⟨hr, hrows⟩
      -- The last row has no separator behind it, so it is set apart from the others.
      cases rows with
      | nil => exact .last ⟨List.intercalate_singleton, hr⟩
      | cons r' rows =>
          have hrest := ih (List.cons_ne_nil r' rows) hrows
          rw [List.intercalate_cons_cons, List.append_assoc]
          exact .next ⟨rfl, hr⟩ hrest

end Text

namespace ClockText

/-! ### Reading -/

/-- What a text of a duration is made of. -/
structure Parts where
  /-- There is a minus sign. -/
  negative : Bool
  /-- The digits in front of the point, from colon to colon. -/
  groups : List (List Char)
  /-- The digits behind the point. -/
  fraction : Option (List Char)

namespace Parts

variable {p : Parts}

/-- Hours, minutes and seconds, or minutes and seconds, or seconds, and a fraction
    or none, all of them rows of digits. -/
structure IsReadable (p : Parts) : Prop where
  nonempty : p.groups ≠ []
  count : p.groups.length ≤ 3
  groups : ∀ g ∈ p.groups, Text.IsRow g
  fraction : ∀ ds ∈ p.fraction, Text.IsRow ds

instance (p : Parts) : Decidable p.IsReadable :=
  decidable_of_iff (p.groups ≠ [] ∧ p.groups.length ≤ 3 ∧ (∀ g ∈ p.groups, Text.IsRow g) ∧
    ∀ ds ∈ p.fraction, Text.IsRow ds)
    ⟨fun h => ⟨h.1, h.2.1, h.2.2.1, h.2.2.2⟩, fun h => ⟨h.1, h.2, h.3, h.4⟩⟩

/-- How many seconds it is. An hour is sixty minutes, and a minute is sixty seconds. -/
def seconds (p : Parts) : ℚ :=
  let whole : ℕ := p.groups.foldl (fun n g => 60 * n + Text.value g) 0
  let fraction : ℚ := p.fraction.elim 0 Text.fractionValue
  if p.negative then -(whole + fraction) else whole + fraction

/-- The text that is made of the parts, but for the sign. -/
def body (p : Parts) : List Char :=
  [':'].intercalate p.groups ++ p.fraction.elim [] ('.' :: ·)

/-- The text that is made of the parts. -/
def text (p : Parts) : List Char :=
  if p.negative then '-' :: p.body else p.body

end Parts

/-- The parts of a text, but for its sign. -/
def cutBody? (negative : Bool) (cs : List Char) : Option Parts :=
  match Text.pieces '.' cs with
  | [whole] => some ⟨negative, Text.pieces ':' whole, none⟩
  | [whole, fraction] => some ⟨negative, Text.pieces ':' whole, some fraction⟩
  | _ => none

/-- The parts of a text. -/
def cut? : List Char → Option Parts
  | '-' :: cs => cutBody? true cs
  | cs => cutBody? false cs

/-- Reads a text as a duration. -/
def read? (cs : List Char) : Option Parts :=
  (cut? cs).filter fun p => decide p.IsReadable

namespace Parts.IsReadable

variable {p : Parts}

theorem joined (h : p.IsReadable) :
    Text.Joined ':' (fun g cs => cs = g ∧ Text.IsRow g) p.groups ([':'].intercalate p.groups) :=
  Text.joined_intercalate ':' h.nonempty h.groups

theorem pieces_whole (h : p.IsReadable) :
    Text.pieces ':' ([':'].intercalate p.groups) = p.groups := by
  have hpieces := h.joined.pieces fun g cs hg => hg.1 ▸ hg.2.notMem (by decide)
  have heq : List.Forall₂ (· = ·) p.groups (Text.pieces ':' ([':'].intercalate p.groups)) :=
    hpieces.imp fun g cs hg => hg.1.symm
  rw [List.forall₂_eq_eq_eq] at heq
  exact heq.symm

/-- There is nothing in front of the point but digits and colons. -/
theorem notMem_whole (h : p.IsReadable) {c : Char} (hdigit : c.isDigit = false) (hne : c ≠ ':') :
    c ∉ [':'].intercalate p.groups :=
  h.joined.notMem hne fun _ _ hg => hg.1 ▸ hg.2.notMem hdigit

theorem cutBody?_body (h : p.IsReadable) : cutBody? p.negative p.body = some p := by
  have hpoint := h.notMem_whole (c := '.') (by decide) (by decide)
  obtain ⟨negative, groups, fraction⟩ := p
  unfold body cutBody?
  -- No row of the whole part has a point in it, so the text is cut where the fraction begins.
  cases fraction with
  | none =>
      dsimp only [Option.elim]
      rw [List.append_nil, Text.pieces_of_notMem hpoint]
      dsimp only
      rw [h.pieces_whole]
  | some ds =>
      have hds := (h.fraction ds rfl).notMem (c := '.') (by decide)
      dsimp only [Option.elim]
      rw [Text.pieces_append_cons hpoint, Text.pieces_of_notMem hds]
      dsimp only
      rw [h.pieces_whole]

theorem notMem_body (h : p.IsReadable) : '-' ∉ p.body := by
  have hwhole := h.notMem_whole (c := '-') (by decide) (by decide)
  have hrows := h.fraction
  unfold body
  cases hfraction : p.fraction with
  | none =>
      dsimp only [Option.elim]
      rwa [List.append_nil]
  | some ds =>
      have hds := (hrows ds hfraction).notMem (c := '-') (by decide)
      dsimp only [Option.elim]
      rw [List.mem_append, List.mem_cons]
      -- Digits, separators and the point are all that a body is made of.
      rintro (hmem | hmem | hmem)
      · exact hwhole hmem
      · exact absurd hmem (by decide)
      · exact hds hmem

/-- What is made of parts is read as them. -/
theorem read?_text (h : p.IsReadable) : read? p.text = some p := by
  have hcut : cut? p.text = some p := by
    have hbody := h.cutBody?_body
    unfold text
    cases hnegative : p.negative with
    | true =>
        rw [hnegative] at hbody
        exact hbody
    | false =>
        rw [hnegative] at hbody
        rw [if_neg Bool.false_ne_true]
        unfold cut?
        split
        · -- Without a sign the body is in front, and begins with a digit.
          next cs hcs => exact absurd (hcs ▸ List.mem_cons_self) h.notMem_body
        · exact hbody
  rw [read?, hcut, Option.filter_some, if_pos (decide_eq_true h)]

example : (read? ['-', '9', '0', '.', '5']).map Parts.seconds = some (-90.5) ∧
    (read? ['-', '1', ':', '3', '0', '.', '5']).map Parts.seconds = some (-90.5) := by
  decide +kernel

end Parts.IsReadable

/-! ### What a clock shows -/

/-- A group that follows another, of minutes or of seconds. -/
structure Follows (g : List Char) : Prop where
  isRow : Text.IsRow g
  length : g.length = 2
  lt_sixty : Text.value g < 60

/-- Groups of which none is too many and none is longer than it has to be. -/
inductive Compact : List (List Char) → Prop
  | seconds {s : List Char} : Text.IsPlain s → Text.value s < 60 → Compact [s]
  | minutes {m s : List Char} : Text.IsPlain m → 0 < Text.value m → Text.value m < 60 →
      Follows s → Compact [m, s]
  | hours {h m s : List Char} : Text.IsPlain h → 0 < Text.value h →
      Follows m → Follows s → Compact [h, m, s]

/-- Parts that could not be shorter. -/
structure Parts.IsTidy (p : Parts) : Prop where
  groups : Compact p.groups
  fraction : ∀ ds ∈ p.fraction, Text.IsRow ds ∧ ds.length ≤ 3 ∧ ds.getLast? ≠ some '0'

theorem Compact.isRow {gs : List (List Char)} (h : Compact gs) : ∀ g ∈ gs, Text.IsRow g := by
  cases h with
  | seconds hs => exact List.forall_mem_singleton.mpr hs.isRow
  | minutes hm _ _ hs =>
      exact List.forall_mem_cons.mpr ⟨hm.isRow, List.forall_mem_singleton.mpr hs.isRow⟩
  | hours hh _ hm hs =>
      exact List.forall_mem_cons.mpr ⟨hh.isRow, List.forall_mem_cons.mpr
        ⟨hm.isRow, List.forall_mem_singleton.mpr hs.isRow⟩⟩

theorem Compact.length {gs : List (List Char)} (h : Compact gs) : gs ≠ [] ∧ gs.length ≤ 3 := by
  cases h with
  | seconds | minutes | hours => exact ⟨List.cons_ne_nil _ _, by simp⟩

/-- What is tidy can be read. -/
theorem Parts.IsTidy.isReadable {p : Parts} (h : p.IsTidy) : p.IsReadable :=
  ⟨h.groups.length.1, h.groups.length.2, h.groups.isRow, fun ds hds => (h.fraction ds hds).1⟩

/-- The groups of a number of milliseconds. -/
def groups (total : ℕ) : List (List Char) :=
  let hours := total / 3600000
  let minutes := total / 60000 % 60
  let seconds := total / 1000 % 60
  if 0 < hours then
    [Text.digits hours, group minutes, group seconds]
  else if 0 < minutes then
    [Text.digits minutes, group seconds]
  else
    [Text.digits seconds]

/-- The fraction of a number of milliseconds. -/
def fraction? (total : ℕ) : Option (List Char) :=
  if 0 < total % 1000 then
    some (Text.trimZeros (Text.padLeft '0' 3 (Text.digits (total % 1000))))
  else
    none

/-- The parts of a signed number of milliseconds. -/
def partsOf (k : ℤ) : Parts where
  negative := decide (k < 0)
  groups := groups k.natAbs
  fraction := fraction? k.natAbs

theorem wholeText_eq (total : ℕ) : wholeText total = [':'].intercalate (groups total) := by
  unfold wholeText groups
  dsimp only
  split_ifs with hhours hminutes
  · rw [List.intercalate_cons_cons, List.intercalate_cons_cons, List.intercalate_singleton]
    simp only [List.append_assoc, List.cons_append, List.nil_append]
  · rw [List.intercalate_cons_cons, List.intercalate_singleton, List.append_assoc]
    rfl
  · rw [List.intercalate_singleton]

theorem fractionText_eq (total : ℕ) :
    fractionText total = (fraction? total).elim [] ('.' :: ·) := by
  unfold fractionText fraction?
  dsimp only
  split_ifs with hfraction
  · rfl
  · rfl

theorem value_group (n : ℕ) : Text.value (group n) = n := by
  rw [group, Text.value_padLeft, Text.value_digits]

/-- Hours, minutes and seconds make up the whole seconds. -/
theorem foldl_groups (total : ℕ) :
    (groups total).foldl (fun n g => 60 * n + Text.value g) 0 = total / 1000 := by
  unfold groups
  dsimp only
  split_ifs with hhours hminutes
  · simp only [List.foldl_cons, List.foldl_nil, Text.value_digits, value_group]
    omega
  · simp only [List.foldl_cons, List.foldl_nil, Text.value_digits, value_group]
    omega
  · simp only [List.foldl_cons, List.foldl_nil, Text.value_digits]
    omega

/-- A fraction makes up the rest. -/
theorem elim_fraction? (total : ℕ) :
    (fraction? total).elim 0 Text.fractionValue = ((total % 1000 : ℕ) : ℚ) / 1000 := by
  unfold fraction?
  split_ifs with hfraction
  · rcases Text.exists_trimZeros (Text.padLeft '0' 3 (Text.digits (total % 1000))) with ⟨n, hzeros⟩
    -- The zeros that were cut off and those put in front
    -- do not change the value of three digits.
    have hpad := Text.padLeft_digits (total % 1000) (show 0 < 3 by decide) (by omega)
    have hvalue := Text.fractionValue_append_zeros
      (Text.trimZeros (Text.padLeft '0' 3 (Text.digits (total % 1000)))) n
    rw [← hzeros] at hvalue
    rw [Option.elim_some, ← hvalue, Text.fractionValue, hpad.1, Text.value_padLeft,
      Text.value_digits]
    norm_num
  · rw [Nat.eq_zero_of_not_pos hfraction]
    norm_num

/-- The parts of a number of milliseconds make up that number. -/
theorem seconds_partsOf (k : ℤ) : (partsOf k).seconds = (k : ℚ) / 1000 := by
  -- The groups make up the whole seconds, and the fraction the thousandths that are left.
  have hsplit : ((k.natAbs / 1000 : ℕ) : ℚ) + ((k.natAbs % 1000 : ℕ) : ℚ) / 1000 =
      (k.natAbs : ℚ) / 1000 := by
    have hmod : ((k.natAbs % 1000 + 1000 * (k.natAbs / 1000) : ℕ) : ℚ) = (k.natAbs : ℚ) :=
      congrArg _ (Nat.mod_add_div k.natAbs 1000)
    push_cast at hmod
    linarith
  unfold Parts.seconds partsOf
  dsimp only
  rw [foldl_groups, elim_fraction?, hsplit]
  by_cases hk : k < 0
  · have habs : (k.natAbs : ℚ) = -k := by rw [Nat.cast_natAbs, abs_of_neg hk, Int.cast_neg]
    rw [if_pos (decide_eq_true hk), habs, neg_div, neg_neg]
  · have habs : (k.natAbs : ℚ) = k := by rw [Nat.cast_natAbs, abs_of_nonneg (not_lt.mp hk)]
    rw [if_neg (by rwa [decide_eq_true_eq]), habs]

theorem follows_group {n : ℕ} (h : n < 60) : Follows (group n) := by
  have hpad := Text.padLeft_digits n (show 0 < 2 by decide) (by omega)
  exact ⟨hpad.2, hpad.1, (value_group n).trans_lt h⟩

theorem compact_groups (total : ℕ) : Compact (groups total) := by
  have hseconds : total / 1000 % 60 < 60 := Nat.mod_lt _ (by decide)
  have hminutes : total / 60000 % 60 < 60 := Nat.mod_lt _ (by decide)
  unfold groups
  dsimp only
  split_ifs with hhours hpos
  · -- Only the first group is free, the others being remainders by sixty.
    refine .hours (Text.isPlain_digits _) ?_ (follows_group hminutes) (follows_group hseconds)
    rwa [Text.value_digits]
  · refine .minutes (Text.isPlain_digits _) ?_ ?_ (follows_group hseconds)
    · rwa [Text.value_digits]
    · rwa [Text.value_digits]
  · refine .seconds (Text.isPlain_digits _) ?_
    rwa [Text.value_digits]

/-- The fraction is a row of up to three digits, of which the last is not zero. -/
theorem fraction?_spec (total : ℕ) : ∀ ds ∈ fraction? total,
    Text.IsRow ds ∧ ds.length ≤ 3 ∧ ds.getLast? ≠ some '0' := by
  intro ds hds
  have hpos : 0 < total % 1000 := by
    by_contra hzero
    rw [fraction?, if_neg hzero] at hds
    cases hds
  rw [fraction?, if_pos hpos, Option.mem_some_iff] at hds
  subst hds
  have hpad := Text.padLeft_digits (total % 1000) (show 0 < 3 by decide) (by omega)
  have hvalue := Text.value_padLeft 3 (Text.digits (total % 1000))
  rw [Text.value_digits] at hvalue
  generalize Text.padLeft '0' 3 (Text.digits (total % 1000)) = padded at hpad hvalue ⊢
  rcases Text.exists_trimZeros padded with ⟨n, hzeros⟩
  refine ⟨⟨?_, fun c hc => hpad.2.2 c ?_⟩, ?_, Text.getLast?_trimZeros padded⟩
  -- A row of nothing but zeros would be no fraction.
  · intro hnil
    have hzero := congrArg Text.value hzeros
    rw [hvalue, hnil, Text.value_append_zeros] at hzero
    exact hpos.ne' hzero
  · rw [hzeros]
    exact List.mem_append_left _ hc
  · have hlength := congrArg List.length hzeros
    rw [hpad.1, List.length_append] at hlength
    omega

/-- No part of a number of milliseconds could be shorter. -/
theorem isTidy_partsOf (k : ℤ) : (partsOf k).IsTidy :=
  ⟨compact_groups k.natAbs, fraction?_spec k.natAbs⟩

/-- A number of milliseconds with the sign of a duration. -/
def signed {α : Type} [Scalar α] (seconds : α) (n : ℕ) : ℤ :=
  if seconds < 0.0 then -n else n

/-- A text is read as a signed number of milliseconds, and has a minus sign only if
    the number is below zero. It could not be shorter. -/
def Shows (text : String) (k : ℤ) : Prop :=
  ∃ p, read? text.toList = some p ∧ p.IsTidy ∧ p.seconds = (k : ℚ) / 1000 ∧
    (p.negative = true ↔ k < 0)

theorem shows_partsOf (k : ℤ) : Shows (String.ofList (partsOf k).text) k := by
  refine ⟨partsOf k, ?_, isTidy_partsOf k, seconds_partsOf k, decide_eq_true_iff⟩
  rw [String.toList_ofList]
  exact (isTidy_partsOf k).isReadable.read?_text

/-- A text shows one number only. -/
theorem Shows.eq {text : String} {j k : ℤ} (hj : Shows text j) (hk : Shows text k) : j = k := by
  rcases hj with ⟨p, hp, -, hpj, -⟩
  rcases hk with ⟨q, hq, -, hqk, -⟩
  rw [hp, Option.some.injEq] at hq
  rw [← hq, hpj, div_left_inj' (by norm_num), Int.cast_inj] at hqk
  exact hqk

/-- The text of a duration is that of its number of milliseconds. -/
theorem clockText_eq {α : Type} [Scalar α] (seconds : α) :
    clockText seconds = String.ofList (partsOf (signed seconds (millis seconds))).text := by
  have hbody : (partsOf (signed seconds (millis seconds))).body =
      wholeText (millis seconds) ++ fractionText (millis seconds) := by
    have habs : (signed seconds (millis seconds)).natAbs = millis seconds := by
      unfold signed
      split_ifs
      · rw [Int.natAbs_neg, Int.natAbs_natCast]
      · exact Int.natAbs_natCast _
    rw [wholeText_eq, fractionText_eq, Parts.body, partsOf, habs]
  -- The text has a sign just if the number of milliseconds has one, and so none for zero.
  have hnegative : signed seconds (millis seconds) < 0 ↔ seconds < 0.0 ∧ 0 < millis seconds := by
    unfold signed
    split_ifs with hsign
    · rw [and_iff_right hsign]
      omega
    · rw [iff_false_right fun h => hsign h.1]
      omega
  unfold clockText
  dsimp only
  rw [Parts.text, hbody, partsOf, List.append_assoc]
  by_cases h : seconds < 0.0 ∧ 0 < millis seconds
  · rw [if_pos h, if_pos (decide_eq_true (hnegative.mpr h))]
    rfl
  · rw [if_neg h, if_neg (by rwa [decide_eq_true_eq, hnegative])]
    rfl

/-- A text shows what a duration comes to, and no other number. -/
theorem shows_clockText {α : Type} [Scalar α] {seconds : α} {n : ℕ}
    (h : millis seconds = n) : Shows (clockText seconds) (signed seconds n) := by
  rw [clockText_eq, h]
  exact shows_partsOf _

theorem clockText_eq_iff {α : Type} [Scalar α] {s t : α} {m n : ℕ}
    (hs : millis s = m) (ht : millis t = n) :
    clockText s = clockText t ↔ signed s m = signed t n := by
  constructor
  · intro h
    have hshows := shows_clockText hs
    rw [h] at hshows
    exact hshows.eq (shows_clockText ht)
  · intro h
    rw [clockText_eq, clockText_eq, hs, ht, h]

end ClockText

/-! ### Milliseconds -/

/-- A finite double without its sign comes to so many milliseconds, and a word has
    room for them. The product is that of doubles, and is finite too. -/
structure Double.InMillis (seconds : Float) (n : ℕ) : Prop where
  isFinite : seconds.isFinite = true
  product : (Scalar.abs seconds * 1000.0).isFinite = true
  nearest : Exact.nearest (Double.real (Scalar.abs seconds * 1000.0)) = n
  fits : n < 2 ^ 64

/-- A real number without its sign comes to so many milliseconds, and a word has
    room for them. -/
structure Exact.InMillis (seconds : ℝ) (n : ℕ) : Prop where
  nearest : Exact.nearest (|seconds| * 1000) = n
  fits : n < 2 ^ 64

/-- A duration whose product with a thousand is known by its mantissa and exponent. -/
theorem Double.InMillis.of_unpack {s : Float} {n m : ℕ} {e : ℤ} (hm : 0 < m)
    (hs : s.isFinite = true) (hproduct : (Scalar.abs s * 1000.0).isFinite = true)
    (hunpack : (Scalar.abs s * 1000.0).toModel.unpack = .finite .positive m e hm)
    (hnear : |(m : ℝ) * 2 ^ e - n| < 1 / 2) (hfits : n < 2 ^ 64) : Double.InMillis s n := by
  refine ⟨hs, hproduct, Exact.nearest_eq ?_, hfits⟩
  rw [Double.real_of_unpack hunpack]
  exact hnear

namespace ClockText

/-- What fits is not cut off. -/
theorem toNat_clamp {n : ℕ} (h : n < 2 ^ 64) :
    (max 0 (min ((UInt64.size : ℤ) - 1) n)).toNat = n := by
  have hsize : (UInt64.size : ℤ) = 2 ^ 64 := rfl
  rw [hsize]
  omega

theorem millis_double {s : Float} {n : ℕ} (h : Double.InMillis s n) : millis s = n := by
  have hround := Double.within_round h.product
  rw [h.nearest] at hround
  rw [millis, Double.toInt_of_whole hround, toNat_clamp h.fits]

theorem millis_exact {s : ℝ} {n : ℕ} (h : Exact.InMillis s n) : millis s = n := by
  have hthousand : (1000.0 : ℝ) = 1000 := by norm_num
  rw [millis, Exact.abs_eq, hthousand, Exact.round_eq, h.nearest, Exact.toInt_intCast,
    toNat_clamp h.fits]

end ClockText

/-- What a clock shows is read back. A text has no group too many, no digit too many
    and no sign too many, and what it is read as is what the duration comes to in
    milliseconds. So two durations are shown alike if and only if they come to the
    same. -/
theorem clock_texts_read_back :
    (∀ (s : Float) (n : ℕ), Double.InMillis s n →
      ClockText.Shows (clockText s) (ClockText.signed s n)) ∧
    (∀ (s t : Float) (m n : ℕ), Double.InMillis s m → Double.InMillis t n →
      (clockText s = clockText t ↔ ClockText.signed s m = ClockText.signed t n)) ∧
    (∀ (s : ℝ) (n : ℕ), Exact.InMillis s n →
      ClockText.Shows (clockText s) (ClockText.signed s n)) ∧
    ∀ (s t : ℝ) (m n : ℕ), Exact.InMillis s m → Exact.InMillis t n →
      (clockText s = clockText t ↔ ClockText.signed s m = ClockText.signed t n) := by
  refine ⟨fun s n hs => ?_, fun s t m n hs ht => ?_, fun s n hs => ?_, fun s t m n hs ht => ?_⟩
  · exact ClockText.shows_clockText (ClockText.millis_double hs)
  · exact ClockText.clockText_eq_iff (ClockText.millis_double hs) (ClockText.millis_double ht)
  · exact ClockText.shows_clockText (ClockText.millis_exact hs)
  · exact ClockText.clockText_eq_iff (ClockText.millis_exact hs) (ClockText.millis_exact ht)

/-- Just below a minute and a minute are both shown as `1:00`, and a quarter of a
    second past a minute is shown apart from as much below zero. -/
theorem clock_texts_read_back_minute :
    (Double.InMillis 59.9996 60000 ∧ Double.InMillis 60.0 60000 ∧
      ClockText.Shows (clockText (59.9996 : Float)) 60000 ∧
      clockText (59.9996 : Float) = clockText (60.0 : Float)) ∧
    Exact.InMillis 65.25 65250 ∧ Exact.InMillis (-65.25) 65250 ∧
      ClockText.Shows (clockText (-65.25 : ℝ)) (-65250) ∧
      clockText (65.25 : ℝ) ≠ clockText (-65.25 : ℝ) := by
  -- Mantissa and exponent of both doubles, whose product with a thousand is near 60000.
  have hbelow : Double.InMillis 59.9996 60000 :=
    .of_unpack (m := 8246282232738611) (e := -37) (by decide) (by rfl) (by rfl) (by rfl)
      (by norm_num [abs_lt]) (by decide)
  have hminute : Double.InMillis 60.0 60000 :=
    .of_unpack (m := 8246337208320000) (e := -37) (by decide) (by rfl) (by rfl) (by rfl)
      (by norm_num [abs_lt]) (by decide)
  have hquarter : Exact.InMillis 65.25 65250 :=
    ⟨Exact.nearest_eq (by norm_num), by decide⟩
  have hopposite : Exact.InMillis (-65.25) 65250 :=
    ⟨Exact.nearest_eq (by norm_num), by decide⟩
  -- What the two sides of the comparison come to, with their signs.
  have hsbelow : ClockText.signed (59.9996 : Float) 60000 = 60000 := if_neg (by decide)
  have hsminute : ClockText.signed (60.0 : Float) 60000 = 60000 := if_neg (by decide)
  have hsquarter : ClockText.signed (65.25 : ℝ) 65250 = 65250 := if_neg (by norm_num)
  have hsopposite : ClockText.signed (-65.25 : ℝ) 65250 = -65250 := if_pos (by norm_num)
  have hshows := clock_texts_read_back.1 _ _ hbelow
  rw [hsbelow] at hshows
  have hopposites := clock_texts_read_back.2.2.1 _ _ hopposite
  rw [hsopposite] at hopposites
  refine ⟨⟨hbelow, hminute, hshows,
    (clock_texts_read_back.2.1 _ _ _ _ hbelow hminute).mpr (hsbelow.trans hsminute.symm)⟩,
    hquarter, hopposite, hopposites, fun h => ?_⟩
  have hsame := (clock_texts_read_back.2.2.2 _ _ _ _ hquarter hopposite).mp h
  rw [hsquarter, hsopposite] at hsame
  exact absurd hsame (by decide)

end Retime
