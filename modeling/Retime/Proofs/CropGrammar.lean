import Mathlib.Data.List.Induction
import Retime.Proofs.MergeGrammar

/-!
# The Grammar of Crops

Which texts denote which crops and resolutions, and how each is written for good.

A crop is read in two passes: the text is cut into pieces, and each piece is
freed of blanks and compared with what may stand in its place. The grammar has
the same parts, but says of each what it looks like and not how it is found. A
text may have blanks around it and around its pieces, signs in front of its
numbers and zeros that mean nothing, so many texts denote one crop.

Exactly one of them has none of that, and this is how a crop is written. A row
of digits without a zero too many is the decimal form of the number it denotes,
and the rest of a text is fixed by the crop.

## Main definitions

* `Text.Trims`: What is left of a text without the blanks around it.
* `Text.Counts`: A text denotes a number.
* `Text.IsPlain`: A row of digits without a zero too many.
* `Crop.Spells`, `Resolution.Spells`: The grammar of crops and resolutions.
* `Crop.Canonical`, `Resolution.Canonical`: The texts that are as short as can be.

## Theorems

* `Text.trim_eq_iff`: Trimming takes off all blanks and nothing else.
* `Text.joined_iff_pieces`: A text is joined of its pieces.
* `Text.readNat?_eq_some_iff`: A number is read as its grammar says.
* `Text.IsPlain.eq_digits`: A plain row of digits is the decimal form of a number.
* `Crop.parseChars_eq_ok_iff`, `Resolution.parse?_eq_some_iff`: Crops and
  resolutions are read as their grammars say.
* `crop_texts_follow_grammar`: What is read, and the one text it is written as.
-/

namespace Retime

namespace Text

/-! ### Blanks and pieces -/

variable {sep : Char} {cs core ds : List Char}

/-- What is left of a text without the blanks around it, which neither begins nor
    ends with one. -/
def Trims (cs core : List Char) : Prop :=
  ∃ front back, cs = front ++ (core ++ back) ∧ (∀ c ∈ front, isBlank c = true) ∧
    (∀ c ∈ back, isBlank c = true) ∧ (∀ c ∈ core.head?, isBlank c = false) ∧
    ∀ c ∈ core.getLast?, isBlank c = false

theorem Trims.trim_eq (h : Trims cs core) : trim cs = core := by
  rcases h with ⟨front, back, rfl, hfront, hback, hhead, hlast⟩
  by_cases hcore : core = []
  · subst hcore
    have hnil : trimStart (front ++ ([] ++ back)) = [] := by
      refine List.dropWhile_eq_nil_iff.mpr fun c hc => ?_
      rcases List.mem_append.mp hc with hc | hc
      · exact hfront c hc
      · exact hback c hc
    rw [trim, hnil]
    rfl
  -- The blanks at the end are those at the start of the text read backwards.
  · have hstart : ∀ c ∈ (core ++ back).head?, isBlank c = false := by
      rw [List.head?_append_of_ne_nil _ hcore]
      exact hhead
    have hend : ∀ c ∈ core.reverse.head?, isBlank c = false := by
      rw [List.head?_reverse]
      exact hlast
    have hreverse : ∀ c ∈ back.reverse, isBlank c = true := fun c hc =>
      hback c (List.mem_reverse.mp hc)
    rw [trim, trimStart_append hfront hstart, List.reverse_append,
      trimStart_append hreverse hend, List.reverse_reverse]

/-- Every text has blanks around it, if only none. -/
theorem exists_trims (cs : List Char) : ∃ core, Trims cs core := by
  rcases exists_stretch isBlank cs with ⟨front, tail, rfl, hfront, htail⟩
  rcases exists_stretch isBlank tail.reverse with ⟨back, core, htail', hback, hcore⟩
  have hsplit : tail = core.reverse ++ back.reverse := by
    rw [← List.reverse_append, ← htail', List.reverse_reverse]
  refine ⟨core.reverse, front, back.reverse, by rw [hsplit], hfront,
    fun c hc => hback c (List.mem_reverse.mp hc), fun c hc => htail c ?_, ?_⟩
  · rw [hsplit, List.head?_append, hc]
    rfl
  · rw [List.getLast?_reverse]
    exact hcore

/-- Trimming takes off all blanks around a text and nothing else. -/
theorem trim_eq_iff : trim cs = core ↔ Trims cs core := by
  constructor
  · intro h
    rcases exists_trims cs with ⟨core', htrims⟩
    rwa [← h, htrims.trim_eq]
  · exact Trims.trim_eq

/-- A text is joined of its pieces, and they are what lies between separators. -/
theorem joined_iff_pieces {β : Type} {R : β → List Char → Prop} {xs : List β} :
    Joined sep (fun x p => sep ∉ p ∧ R x p) xs cs ↔ List.Forall₂ R xs (pieces sep cs) := by
  constructor
  · intro h
    exact (h.pieces fun x p hp => hp.1).imp fun x p hp => hp.2
  · intro h
    induction xs generalizing cs with
    | nil => exact absurd (List.forall₂_nil_left_iff.mp h) (pieces_ne_nil sep cs)
    | cons x xs ih =>
        -- The first separator ends the first piece, and a text without one is the last piece.
        by_cases hmem : sep ∈ cs
        · rcases List.eq_append_cons_of_mem hmem with ⟨a, b, rfl, ha⟩
          rw [pieces_append_cons ha] at h
          cases h with
          | cons hx hxs => exact .next ⟨ha, hx⟩ (ih hxs)
        · rw [pieces_of_notMem hmem] at h
          cases h with
          | cons hx hxs =>
              cases hxs
              exact .last ⟨hmem, hx⟩

/-- A text falls into pieces between separators, as many as there are kinds, and
    each is of its kind without the blanks around it. -/
def FallsInto (sep : Char) (kinds : List (List Char → Prop)) (cs : List Char) : Prop :=
  Joined sep (fun kind p => sep ∉ p ∧ ∃ core, Trims p core ∧ kind core) kinds cs

theorem fallsInto_iff {kinds : List (List Char → Prop)} :
    FallsInto sep kinds cs ↔
      List.Forall₂ (fun kind p => kind p) kinds ((pieces sep cs).map trim) := by
  have hkind : ∀ (kind : List Char → Prop) (p : List Char),
      (∃ core, Trims p core ∧ kind core) ↔ kind (trim p) := by
    intro kind p
    simp only [← trim_eq_iff, exists_eq_left']
  unfold FallsInto
  rw [joined_iff_pieces, List.forall₂_map_right_iff]
  simp only [hkind]

/-! ### Numbers -/

/-- A text denotes a number in decimal: it is a row of digits of that value, with a
    plus sign in front or without. -/
def Counts (n : Nat) (cs : List Char) : Prop :=
  ∃ ds, (cs = ds ∨ cs = '+' :: ds) ∧ ds ≠ [] ∧ (∀ c ∈ ds, c.isDigit = true) ∧ value ds = n

theorem readDigits?_eq_some_iff {limit n : Nat} :
    readDigits? limit cs = some n ↔
      (cs ≠ [] ∧ (∀ c ∈ cs, c.isDigit = true) ∧ value cs = n) ∧ n ≤ limit := by
  unfold readDigits?
  rw [Option.ite_none_right_eq_some, List.all_eq_true, Option.some.injEq]
  constructor
  · rintro ⟨⟨hne, hdigits, hle⟩, rfl⟩
    exact ⟨⟨hne, hdigits, rfl⟩, hle⟩
  · rintro ⟨⟨hne, hdigits, rfl⟩, hle⟩
    exact ⟨⟨hne, hdigits, hle⟩, rfl⟩

/-- A number is read as its grammar says, up to the bound. -/
theorem readNat?_eq_some_iff {limit n : Nat} :
    readNat? limit cs = some n ↔ Counts n cs ∧ n ≤ limit := by
  unfold readNat?
  split
  · next ds =>
      rw [readDigits?_eq_some_iff]
      refine and_congr_left fun _ => ⟨fun h => ⟨ds, Or.inr rfl, h⟩, ?_⟩
      rintro ⟨es, rfl | heq, h⟩
      -- A sign is no digit, so it is not part of the row.
      · exact absurd (h.2.1 '+' List.mem_cons_self) (by decide)
      · rwa [(List.cons.inj heq).2]
  · next hplus =>
      rw [readDigits?_eq_some_iff]
      refine and_congr_left fun _ => ⟨fun h => ⟨_, Or.inl rfl, h⟩, ?_⟩
      rintro ⟨ds, rfl | heq, h⟩
      · exact h
      · exact absurd heq (hplus ds)

/-- A number of pixels is read as its grammar says. -/
theorem readNat?_pixels_iff {n : UInt32} :
    readNat? maxPixels cs = some n.toNat ↔ Counts n.toNat cs := by
  rw [readNat?_eq_some_iff]
  exact and_iff_left (Nat.le_sub_one_of_lt n.toNat_lt)

/-- What is read up to the bound is a number of pixels. -/
theorem exists_pixels {m : Nat} (h : readNat? maxPixels cs = some m) :
    ∃ n : UInt32, m = n.toNat :=
  ⟨.ofNat m, (UInt32.toNat_ofNat_of_lt'
    (Nat.lt_of_le_pred (by decide) (readNat?_eq_some_iff.mp h).2)).symm⟩

/-- A row of digits without a zero too many. -/
def IsPlain (ds : List Char) : Prop :=
  ds ≠ [] ∧ (∀ c ∈ ds, c.isDigit = true) ∧ (ds.head? = some '0' → ds = ['0'])

theorem isPlain_digits (n : Nat) : IsPlain (digits n) := by
  refine ⟨Nat.toDigits_ne_nil, fun c hc => isDigit_of_mem_digits hc, fun hzero => ?_⟩
  rcases digits_cases n with h | ⟨c, cs, h, hne, -⟩
  · exact h
  · rw [h] at hzero
    exact absurd (Option.some.inj hzero) hne

theorem value_concat (ds : List Char) (d : Char) :
    value (ds ++ [d]) = 10 * value ds + (d.toNat - 48) := by
  unfold value
  rw [List.foldl_append]
  rfl

theorem digitChar_sub {d : Char} (h : d.isDigit = true) :
    d.toNat - 48 < 10 ∧ (d.toNat - 48).digitChar = d := by
  have hrange : 48 ≤ d.toNat ∧ d.toNat ≤ 57 := by
    simpa [Char.isDigit, UInt32.le_iff_toNat_le] using h
  have hall : ∀ k < 10, k.digitChar.toNat = 48 + k := by decide
  have hlt : d.toNat - 48 < 10 := by omega
  refine ⟨hlt, Char.toNat_inj.mp ?_⟩
  rw [hall _ hlt]
  omega

/-- A number above zero and one more digit. -/
theorem digits_concat {n : Nat} {d : Char} (hn : 0 < n) (hd : d.isDigit = true) :
    digits (10 * n + (d.toNat - 48)) = digits n ++ [d] := by
  rcases digitChar_sub hd with ⟨hlt, hchar⟩
  have hdigits := Nat.toDigits_eq_if (b := 10) (n := 10 * n + (d.toNat - 48)) (by decide)
  rw [if_neg (by omega)] at hdigits
  have hdiv : (10 * n + (d.toNat - 48)) / 10 = n := by omega
  have hmod : (10 * n + (d.toNat - 48)) % 10 = d.toNat - 48 := by omega
  rw [hdiv, hmod, hchar] at hdigits
  exact hdigits

/-- A plain row of digits is the decimal form of the number it denotes. -/
theorem IsPlain.eq_digits (h : IsPlain ds) : ds = digits (value ds) := by
  induction ds using List.reverseRecOn with
  | nil => exact absurd rfl h.1
  | append_singleton ds d ih =>
      rcases h with ⟨-, hdigits, hzero⟩
      rcases List.forall_mem_append.mp hdigits with ⟨hds, hd⟩
      have hd := hd d (List.mem_singleton_self d)
      rw [value_concat]
      by_cases hnil : ds = []
      · subst hnil
        rcases digitChar_sub hd with ⟨hlt, hchar⟩
        have hone := Nat.toDigits_of_lt_base (b := 10) (n := d.toNat - 48) hlt
        rw [hchar] at hone
        have hvalue : 10 * value [] + (d.toNat - 48) = d.toNat - 48 := Nat.zero_add _
        rw [hvalue]
        exact hone.symm
      -- What is in front of the last digit is plain too, and not zero.
      · have hhead : ds.head? ≠ some '0' := by
          intro hhead
          rw [List.head?_append_of_ne_nil _ hnil] at hzero
          have hlength := congrArg List.length (hzero hhead)
          have hpos := List.length_pos_of_ne_nil hnil
          rw [List.length_append] at hlength
          simp only [List.length_singleton] at hlength
          omega
        have hds' := ih ⟨hnil, hds, fun h => absurd h hhead⟩
        have hpos : 0 < value ds := by
          refine Nat.pos_of_ne_zero fun hvalue => hhead ?_
          rw [hds', hvalue]
          rfl
        rw [digits_concat hpos hd, ← hds']

/-- What is plain has no blanks, no signs and no separators. -/
theorem IsPlain.clean (h : IsPlain ds) : ∀ c ∈ ds, isBlank c = false ∧ c ≠ ':' :=
  fun c hc => plain_of_isDigit (h.2.1 c hc)

/-- The one plain text of a number. -/
theorem Counts.eq_digits {n : Nat} (h : Counts n cs) (hplain : IsPlain cs) : cs = digits n := by
  rcases h with ⟨ds, rfl | rfl, -, -, rfl⟩
  · exact hplain.eq_digits
  · exact absurd (hplain.2.1 '+' List.mem_cons_self) (by decide)

theorem counts_digits (n : Nat) : Counts n (digits n) :=
  ⟨digits n, Or.inl rfl, Nat.toDigits_ne_nil, fun _ hc => isDigit_of_mem_digits hc,
    value_digits n⟩

/-- What begins with neither a digit nor a sign denotes no number. -/
theorem not_counts_cons {c : Char} {cs : List Char} (hdigit : c.isDigit = false) (hsign : c ≠ '+')
    (n : Nat) : ¬ Counts n (c :: cs) := by
  rintro ⟨ds, rfl | heq, -, hds, -⟩
  · have hc := hds c List.mem_cons_self
    rw [hdigit] at hc
    cases hc
  · exact hsign (List.cons.inj heq).1

end Text

/-! ### Crops -/

/-- An extent is written as a number of pixels, or as the symbol of a full one. -/
def Extent.Spells (symbol : List Char) : Extent → List Char → Prop
  | .pixels n, cs => Text.Counts n.toNat cs
  | .full, cs => cs = symbol

namespace Crop

variable {cs symbol : List Char} {c : Crop}

/-- What the four pieces of a text have to be that denotes a crop. -/
def kinds (c : Crop) : List (List Char → Prop) :=
  [Text.Counts c.x.toNat, Text.Counts c.y.toNat, c.width.Spells ['i', 'w'],
    c.height.Spells ['i', 'h']]

/-- The grammar of a crop. Without the blanks around it the text falls into four
    pieces between colons, and they are two numbers and two extents. -/
def Spells (c : Crop) (cs : List Char) : Prop :=
  ∃ core, Text.Trims cs core ∧ Text.FallsInto ':' c.kinds core

theorem spells_iff :
    c.Spells cs ↔ List.Forall₂ (fun kind p => kind p) c.kinds
      ((Text.pieces ':' (Text.trim cs)).map Text.trim) := by
  unfold Spells
  simp only [← Text.trim_eq_iff, exists_eq_left', Text.fallsInto_iff]

theorem parsePixels_eq_ok_iff {name : String} {n : UInt32} :
    parsePixels name cs = .ok n ↔ Text.Counts n.toNat cs := by
  rw [← Text.readNat?_pixels_iff]
  unfold parsePixels
  cases h : Text.readNat? maxPixels cs with
  | none => exact iff_of_false nofun nofun
  | some m =>
      rcases Text.exists_pixels h with ⟨k, rfl⟩
      simp only [UInt32.ofNat_toNat, Except.ok.injEq, Option.some.injEq, UInt32.toNat_inj]

theorem parseExtent_eq_ok_iff (hsymbol : ∀ n, ¬ Text.Counts n symbol) {name : String}
    {e : Extent} : parseExtent symbol name cs = .ok e ↔ e.Spells symbol cs := by
  unfold parseExtent
  -- The symbol is looked for first, which matters only if it could be taken for a number.
  by_cases h : cs = symbol
  · subst h
    rw [if_pos rfl]
    cases e with
    | full => exact iff_of_true rfl rfl
    | pixels n => exact iff_of_false nofun (hsymbol n.toNat)
  · rw [if_neg h, map_ok_iff]
    cases e with
    | full => exact iff_of_false (by rintro ⟨n, -, ⟨⟩⟩) h
    | pixels n => simp only [Extent.pixels.injEq, exists_eq_right, parsePixels_eq_ok_iff,
        Extent.Spells]

theorem not_counts_symbols : (∀ n, ¬ Text.Counts n ['i', 'w']) ∧ ∀ n, ¬ Text.Counts n ['i', 'h'] :=
  ⟨Text.not_counts_cons rfl (by decide), Text.not_counts_cons rfl (by decide)⟩

/-- A crop is read as its grammar says. -/
theorem parseChars_eq_ok_iff : parseChars cs = .ok c ↔ c.Spells cs := by
  rw [spells_iff]
  unfold parseChars
  generalize (Text.pieces ':' (Text.trim cs)).map Text.trim = ps
  -- There are four pieces, or too few, or too many.
  rcases ps with _ | ⟨x, _ | ⟨y, _ | ⟨w, _ | ⟨h, _ | ⟨k, ps⟩⟩⟩⟩⟩
  case cons.cons.cons.cons.nil =>
    rcases c with ⟨cx, cy, cw, ch⟩
    simp only [bind_ok_iff, parsePixels_eq_ok_iff, parseExtent_eq_ok_iff not_counts_symbols.1,
      parseExtent_eq_ok_iff not_counts_symbols.2, kinds, List.forall₂_cons, List.Forall₂.nil,
      and_true]
    constructor
    · rintro ⟨x', hx, y', hy, w', hw, h', hh, heq⟩
      cases heq
      exact ⟨hx, hy, hw, hh⟩
    · rintro ⟨hx, hy, hw, hh⟩
      exact ⟨cx, hx, cy, hy, cw, hw, ch, hh, rfl⟩
  all_goals simp [kinds]

theorem parse_eq_ok_iff {α : Type} {s : String} :
    (parse s : Except (MarkerError α) Crop) = .ok c ↔ c.Spells s.toList := by
  rw [← parseChars_eq_ok_iff]
  unfold parse
  cases parseChars s.toList with
  | ok d => simp only [Except.ok.injEq]
  | error flaw => exact iff_of_false nofun nofun

/-- A text of four components with neither blanks nor signs nor zeros too many. -/
def Canonical (cs : List Char) : Prop :=
  ∃ x y width height, cs = x ++ ':' :: (y ++ ':' :: (width ++ ':' :: height)) ∧
    Text.IsPlain x ∧ Text.IsPlain y ∧ (Text.IsPlain width ∨ width = ['i', 'w']) ∧
    (Text.IsPlain height ∨ height = ['i', 'h'])

theorem isPlain_extentChars (symbol : List Char) (e : Extent) :
    Text.IsPlain (extentChars symbol e) ∨ extentChars symbol e = symbol := by
  cases e with
  | pixels n => exact Or.inl (Text.isPlain_digits n.toNat)
  | full => exact Or.inr rfl

/-- A crop is written in its canonical form. -/
theorem canonical_text (c : Crop) : Canonical c.text.toList :=
  ⟨_, _, _, _, toList_text c, Text.isPlain_digits _, Text.isPlain_digits _,
    isPlain_extentChars _ _, isPlain_extentChars _ _⟩

theorem eq_extentChars {e : Extent} (h : e.Spells symbol cs)
    (hsymbol : ∀ n, ¬ Text.Counts n symbol) (hplain : Text.IsPlain cs ∨ cs = symbol) :
    cs = extentChars symbol e := by
  cases e with
  | full => exact h
  | pixels n =>
      rcases hplain with hplain | rfl
      · exact Text.Counts.eq_digits h hplain
      · exact absurd h (hsymbol n.toNat)

theorem clean_component (hsymbol : ∀ d ∈ symbol, Text.isBlank d = false ∧ d ≠ ':')
    (h : Text.IsPlain cs ∨ cs = symbol) : ∀ d ∈ cs, Text.isBlank d = false ∧ d ≠ ':' := by
  rcases h with h | rfl
  · exact h.clean
  · exact hsymbol

/-- There is no other canonical text of a crop. -/
theorem Canonical.eq_text (h : Canonical cs) (hspells : c.Spells cs) : cs = c.text.toList := by
  rcases h with ⟨x, y, w, h, rfl, hx, hy, hw, hh⟩
  rw [spells_iff, pieces_components hx.clean hy.clean (clean_component clean_symbols.1 hw)
    (clean_component clean_symbols.2 hh)] at hspells
  simp only [kinds, List.forall₂_cons, List.Forall₂.nil, and_true] at hspells
  rcases hspells with ⟨hx', hy', hw', hh'⟩
  rw [toList_text, ← hx'.eq_digits hx, ← hy'.eq_digits hy,
    ← eq_extentChars hw' not_counts_symbols.1 hw, ← eq_extentChars hh' not_counts_symbols.2 hh]

end Crop

/-! ### Resolutions -/

namespace Resolution

variable {cs : List Char} {r : Resolution}

/-- The grammar of a resolution. Without the blanks around it the text is cut at the
    first `x`, and what is on either side is a number above zero. -/
def Spells (r : Resolution) (cs : List Char) : Prop :=
  ∃ width height, Text.Trims cs (width ++ 'x' :: height) ∧ 'x' ∉ width ∧
    (∃ core, Text.Trims width core ∧ Text.Counts r.width.toNat core ∧ r.width ≠ 0) ∧
    ∃ core, Text.Trims height core ∧ Text.Counts r.height.toNat core ∧ r.height ≠ 0

theorem spells_iff :
    r.Spells cs ↔ ∃ width height, Text.trim cs = width ++ 'x' :: height ∧ 'x' ∉ width ∧
      (Text.Counts r.width.toNat (Text.trim width) ∧ r.width ≠ 0) ∧
        Text.Counts r.height.toNat (Text.trim height) ∧ r.height ≠ 0 := by
  unfold Spells
  simp only [← Text.trim_eq_iff, exists_eq_left']

theorem parse?_of_notMem {s : String} (h : 'x' ∉ Text.trim s.toList) : parse? s = none := by
  have hnone : (Text.trim s.toList).dropWhile (· != 'x') = [] :=
    List.dropWhile_eq_nil_iff.mpr fun c hc => bne_iff_ne.mpr fun heq => h (heq ▸ hc)
  unfold parse?
  dsimp only
  rw [hnone]
  rfl

/-- A text with an `x` is read on both sides of the first. -/
theorem parse?_of_cut {s : String} {width height : List Char}
    (htext : Text.trim s.toList = width ++ 'x' :: height) (hno : 'x' ∉ width) :
    parse? s = (Text.readNat? maxPixels (Text.trim width)).bind fun w =>
      (Text.readNat? maxPixels (Text.trim height)).bind fun h =>
        if w = 0 ∨ h = 0 then none else some ⟨.ofNat w, .ofNat h⟩ := by
  -- What is taken stops at the first separator, as nothing in front of it is one.
  have hpass : ∀ c ∈ width, (c != 'x') = true := fun c hc =>
    bne_iff_ne.mpr fun heq => hno (heq ▸ hc)
  have htake : (width ++ 'x' :: height).takeWhile (· != 'x') = width :=
    Text.takeWhile_stretch hpass fun c hc => by
      cases hc
      rfl
  have hdrop : (width ++ 'x' :: height).dropWhile (· != 'x') = 'x' :: height := by
    rw [List.dropWhile_append_of_pos hpass]
    rfl
  unfold parse?
  dsimp only
  rw [htext, htake, hdrop]
  rfl

/-- A resolution is read as its grammar says. -/
theorem parse?_eq_some_iff {s : String} : parse? s = some r ↔ r.Spells s.toList := by
  rw [spells_iff]
  constructor
  · intro h
    -- Without an x there is no text on two sides, and nothing is read.
    by_cases hmem : 'x' ∈ Text.trim s.toList
    · rcases List.eq_append_cons_of_mem hmem with ⟨width, height, htext, hno⟩
      rw [parse?_of_cut htext hno] at h
      rcases Option.bind_eq_some_iff.mp h with ⟨w, hw, h⟩
      rcases Option.bind_eq_some_iff.mp h with ⟨k, hk, h⟩
      rcases Text.exists_pixels hw with ⟨w, rfl⟩
      rcases Text.exists_pixels hk with ⟨k, rfl⟩
      rw [Option.ite_none_left_eq_some, not_or] at h
      rcases h with ⟨⟨hw0, hk0⟩, h⟩
      rw [UInt32.ofNat_toNat, UInt32.ofNat_toNat] at h
      cases h
      exact ⟨width, height, htext, hno,
        ⟨Text.readNat?_pixels_iff.mp hw, fun h => hw0 (congrArg UInt32.toNat h)⟩,
        Text.readNat?_pixels_iff.mp hk, fun h => hk0 (congrArg UInt32.toNat h)⟩
    · rw [parse?_of_notMem hmem] at h
      cases h
  · rintro ⟨width, height, htext, hno, ⟨hw, hw0⟩, hh, hh0⟩
    -- The test for zero is on the numbers as they were read, before they are words.
    have hzero : ∀ n : UInt32, n ≠ 0 → n.toNat ≠ 0 := fun n hn h => hn (UInt32.toNat_inj.mp h)
    rw [parse?_of_cut htext hno, Text.readNat?_pixels_iff.mpr hw, Option.bind_some,
      Text.readNat?_pixels_iff.mpr hh, Option.bind_some,
      if_neg (not_or.mpr ⟨hzero _ hw0, hzero _ hh0⟩), UInt32.ofNat_toNat, UInt32.ofNat_toNat]

/-- Two numbers with an `x` between them, with neither blanks nor signs nor zeros too
    many. -/
def Canonical (cs : List Char) : Prop :=
  ∃ width height, cs = width ++ 'x' :: height ∧ Text.IsPlain width ∧ Text.IsPlain height

theorem toList_text (r : Resolution) :
    r.text.toList = Text.digits r.width.toNat ++ 'x' :: Text.digits r.height.toNat := by
  unfold text Text.natText
  simp

/-- A canonical text denotes a resolution just if it is the one it is written as, and
    there are pixels in it. -/
theorem canonical_spells_iff :
    Canonical cs ∧ r.Spells cs ↔ cs = r.text.toList ∧ r.width ≠ 0 ∧ r.height ≠ 0 := by
  have hclean : ∀ {ds : List Char}, Text.IsPlain ds → Text.trim ds = ds := fun h =>
    Text.trim_eq_self fun c hc => (h.clean c hc).1
  have hno : ∀ {ds : List Char}, Text.IsPlain ds → 'x' ∉ ds := fun h hx =>
    absurd (h.2.1 'x' hx) (by decide)
  have htrim : ∀ {a b : List Char}, Text.IsPlain a → Text.IsPlain b →
      Text.trim (a ++ 'x' :: b) = a ++ 'x' :: b := by
    intro a b ha hb
    refine Text.trim_eq_self fun c hc => ?_
    simp only [List.mem_append, List.mem_cons] at hc
    rcases hc with hc | rfl | hc
    · exact (ha.clean c hc).1
    · rfl
    · exact (hb.clean c hc).1
  rw [spells_iff]
  constructor
  · rintro ⟨⟨a, b, rfl, ha, hb⟩, width, height, htext, hwidth, ⟨hw, hw0⟩, hh, hh0⟩
    rw [htrim ha hb] at htext
    -- The text has one separator, so both cuts are at it.
    rcases (List.append_cons_inj_of_notMem (hno ha) (hno hb)).mp htext with ⟨rfl, -, rfl⟩
    rw [hclean ha] at hw
    rw [hclean hb] at hh
    rw [toList_text, ← hw.eq_digits ha, ← hh.eq_digits hb]
    exact ⟨rfl, hw0, hh0⟩
  · rintro ⟨rfl, hw0, hh0⟩
    have hw := Text.isPlain_digits r.width.toNat
    have hh := Text.isPlain_digits r.height.toNat
    rw [toList_text, htrim hw hh]
    refine ⟨⟨_, _, rfl, hw, hh⟩, _, _, rfl, hno hw, ⟨?_, hw0⟩, ?_, hh0⟩
    · rw [hclean hw]
      exact Text.counts_digits _
    · rw [hclean hh]
      exact Text.counts_digits _

/-- A resolution is written in its canonical form. -/
theorem canonical_text (r : Resolution) : Canonical r.text.toList :=
  ⟨_, _, r.toList_text, Text.isPlain_digits _, Text.isPlain_digits _⟩

/-- What is written of a resolution denotes it just if there are pixels in it. -/
theorem spells_text_iff (r : Resolution) :
    r.Spells r.text.toList ↔ r.width ≠ 0 ∧ r.height ≠ 0 := by
  constructor
  · intro h
    exact (canonical_spells_iff.mp ⟨r.canonical_text, h⟩).2
  · intro h
    exact (canonical_spells_iff.mpr ⟨rfl, h⟩).2

end Resolution

/-- A crop comes back from the text it is written as, a text is read as the crop it
    denotes and otherwise refused, and of the texts that denote a crop the one it is
    written as is the one canonical text. The same holds of resolutions, save that
    one without pixels can be written and not read. -/
theorem crop_texts_follow_grammar :
    (∀ (α : Type) (c : Crop), (Crop.parse c.text : Except (MarkerError α) Crop) = .ok c) ∧
    (∀ (α : Type) (s : String) (c : Crop),
      (Crop.parse s : Except (MarkerError α) Crop) = .ok c ↔ c.Spells s.toList) ∧
    (∀ (s : String) (c : Crop), Crop.Canonical s.toList ∧ c.Spells s.toList ↔ s = c.text) ∧
    (∀ r : Resolution, Resolution.parse? r.text = some r ↔ r.width ≠ 0 ∧ r.height ≠ 0) ∧
    (∀ (s : String) (r : Resolution), Resolution.parse? s = some r ↔ r.Spells s.toList) ∧
    ∀ (s : String) (r : Resolution), Resolution.Canonical s.toList ∧ r.Spells s.toList ↔
      s = r.text ∧ r.width ≠ 0 ∧ r.height ≠ 0 := by
  refine ⟨fun _ c => Crop.parse_text c, fun _ _ _ => Crop.parse_eq_ok_iff, fun s c => ⟨?_, ?_⟩,
    fun r => ?_, fun _ _ => Resolution.parse?_eq_some_iff, fun s r => ?_⟩
  · rintro ⟨hcanonical, hspells⟩
    exact String.toList_inj.mp (hcanonical.eq_text hspells)
  · -- Which error a text is refused with does not matter for what it spells.
    rintro rfl
    exact ⟨c.canonical_text, (Crop.parse_eq_ok_iff (α := Rat)).mp (Crop.parse_text c)⟩
  · rw [Resolution.parse?_eq_some_iff, Resolution.spells_text_iff]
  · rw [Resolution.canonical_spells_iff, String.toList_inj]

/-- Blanks, signs and zeros too many are passed over. -/
example : Crop.parseChars [' ', '+', '7', ' ', ':', '\t', '0', '7', ':', 'i', 'w', ':', '9'] =
    .ok ⟨7, 7, .full, .pixels 9⟩ := by
  decide

end Retime
