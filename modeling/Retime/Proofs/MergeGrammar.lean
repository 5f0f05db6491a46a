import Mathlib.Data.List.Forall2
import Mathlib.Data.List.TakeWhile
import Retime.Merge.List
import Retime.Proofs.CropText

/-!
# The Grammar of Merge Lists

Which texts denote which entries, and that nothing reaches over a separator.

A merge list is cut at semicolons, each piece at commas, and each of those at
hyphens, before anything in it is read. Cutting a text around a separator cuts
the parts on either side by themselves. So what is read of a list is read of its
parts, and a part that denotes nothing costs no more than itself.

The reading of an entry is lenient, which makes it easy to say what is accepted
and hard to see what is not. `Denotes` says it without cutting: an entry without
a hyphen denotes the number it begins with, and one with hyphens a range, if
both of the parts at the first of them begin with a number. All that follows a
number is passed over, in an entry up to its next separator.

A list may be written in many ways. `Spells` are those with all that there is to
read, in decimal and with blanks wherever one may stand.

## Main definitions

* `Text.Joined`: A text of pieces with a separator between them.
* `MergeEntry.Leads`: A text begins with a number.
* `MergeEntry.Denotes`: The grammar of an entry.
* `MergeEntry.Spells`, `MergeGroup.Spells`, `MergeList.Spells`: Writing an
  entry, a group and a list with blanks.

## Theorems

* `Text.Joined.pieces`: A joined text is cut into its pieces.
* `MergeEntry.leadingNumber?_eq_some_iff`: The number that a text begins with.
* `MergeEntry.parse?_eq_some_iff`: An entry is read as its grammar says.
* `MergeGroup.entries_of_spells`: A written group has the entries it was written
  from.
* `merge_lists_follow_grammar`: A list is read by its grammar, part by part.
-/

namespace Retime

/-- What a function makes of the things of a list, where it makes something of
    each. -/
theorem filterMap_of_forall₂ {β γ : Type} {f : γ → Option β} {bs : List β} {cs : List γ}
    (h : List.Forall₂ (fun b c => f c = some b) bs cs) : cs.filterMap f = bs := by
  induction h with
  | nil => rfl
  | cons hb _ ih => rw [List.filterMap_cons, hb, ih]

namespace Text

variable {sep : Char} {a b cs rest : List Char}

theorem pieces_of_notMem (h : sep ∉ cs) : pieces sep cs = [cs] :=
  pieces_eq_self fun _ hc heq => h (heq ▸ hc)

/-- What stands in front of the first separator is a piece. -/
theorem pieces_append_cons (h : sep ∉ a) : pieces sep (a ++ sep :: b) = a :: pieces sep b := by
  rw [pieces_append, pieces_of_notMem h]
  rfl

/-- The first piece goes on to the first separator, or to the end. -/
theorem pieces_append_of_head (h : sep ∉ a) (hrest : ∀ c ∈ rest.head?, c = sep) :
    ∃ ps, pieces sep (a ++ rest) = a :: ps := by
  cases rest with
  | nil =>
      rw [List.append_nil]
      exact ⟨[], pieces_of_notMem h⟩
  | cons c rest =>
      obtain rfl : c = sep := hrest c rfl
      exact ⟨_, pieces_append_cons h⟩

/-- A text is cut behind its first characters of a kind. -/
theorem exists_stretch (p : Char → Bool) (cs : List Char) :
    ∃ a rest, cs = a ++ rest ∧ (∀ c ∈ a, p c = true) ∧ ∀ c ∈ rest.head?, p c = false := by
  refine ⟨cs.takeWhile p, cs.dropWhile p, List.takeWhile_append_dropWhile.symm,
    fun c hc => List.mem_takeWhile_imp hc, fun c hc => ?_⟩
  have hnot := List.head?_dropWhile_not p cs
  rw [Option.mem_def.mp hc] at hnot
  exact hnot

/-- The stretch of a kind at the start of a text is found. -/
theorem takeWhile_stretch {p : Char → Bool} (ha : ∀ c ∈ a, p c = true)
    (hrest : ∀ c ∈ rest.head?, p c = false) : (a ++ rest).takeWhile p = a := by
  rw [List.takeWhile_append_of_pos ha]
  cases rest with
  | nil => rw [List.takeWhile_nil, List.append_nil]
  | cons c rest => rw [List.takeWhile_cons_of_neg (by rw [hrest c rfl]; decide), List.append_nil]

/-- Blanks at the start of a text are passed over, up to something else. -/
theorem trimStart_append (ha : ∀ c ∈ a, isBlank c = true)
    (hrest : ∀ c ∈ rest.head?, isBlank c = false) : trimStart (a ++ rest) = rest := by
  rw [trimStart, List.dropWhile_append_of_pos ha]
  cases rest with
  | nil => rfl
  | cons c rest => exact List.dropWhile_cons_of_neg (by rw [hrest c rfl]; decide)

/-- A text of pieces with a separator between them, a piece for each thing. -/
inductive Joined {β : Type} (sep : Char) (R : β → List Char → Prop) : List β → List Char → Prop
  | last {x : β} {p : List Char} : R x p → Joined sep R [x] p
  | next {x : β} {xs : List β} {p cs : List Char} :
      R x p → Joined sep R xs cs → Joined sep R (x :: xs) (p ++ sep :: cs)

namespace Joined

variable {β : Type} {R : β → List Char → Prop} {xs : List β}

/-- A joined text is cut into its pieces, as none of them has the separator. -/
theorem pieces (h : Joined sep R xs cs) (hsep : ∀ x p, R x p → sep ∉ p) :
    List.Forall₂ R xs (Text.pieces sep cs) := by
  induction h with
  | last hp =>
      rw [pieces_of_notMem (hsep _ _ hp)]
      exact .cons hp .nil
  | next hp _ ih =>
      rw [pieces_append_cons (hsep _ _ hp)]
      exact .cons hp ih

/-- A character that is in none of the pieces and is no separator is not in the
    text. -/
theorem notMem {c : Char} (h : Joined sep R xs cs) (hne : c ≠ sep)
    (hc : ∀ x p, R x p → c ∉ p) : c ∉ cs := by
  induction h with
  | last hp => exact hc _ _ hp
  | next hp _ ih =>
      rw [List.mem_append, List.mem_cons]
      rintro (hmem | hmem | hmem)
      · exact hc _ _ hp hmem
      · exact hne hmem
      · exact ih hmem

/-- All rows of things but the empty one have a joined text. -/
theorem exists_of_ne_nil (sep : Char) (hne : xs ≠ []) (hR : ∀ x, ∃ p, R x p) :
    ∃ cs, Joined sep R xs cs := by
  induction xs with
  | nil => exact absurd rfl hne
  | cons x xs ih =>
      rcases hR x with ⟨p, hp⟩
      cases xs with
      | nil => exact ⟨p, .last hp⟩
      | cons y ys =>
          rcases ih (List.cons_ne_nil y ys) with ⟨cs, hcs⟩
          exact ⟨_, .next hp hcs⟩

end Joined

end Text

namespace MergeEntry

variable {cs a b rest : List Char} {e : MergeEntry} {m n : UInt64}

/-- A text begins with a number: behind blanks, if any, stands a row of digits
    that denotes it, and the row is not cut short. -/
def Leads (cs : List Char) (n : UInt64) : Prop :=
  ∃ blanks ds rest, cs = blanks ++ (ds ++ rest) ∧ (∀ c ∈ blanks, Text.isBlank c = true) ∧
    ds ≠ [] ∧ (∀ c ∈ ds, c.isDigit = true) ∧ (∀ c ∈ rest.head?, c.isDigit = false) ∧
    Text.value ds = n.toNat

/-- The number that a text begins with is read, and no other. -/
theorem leadingNumber?_eq_some_iff : leadingNumber? cs = some n ↔ Leads cs n := by
  constructor
  · intro h
    rcases Text.exists_stretch Text.isBlank cs with ⟨blanks, tail, rfl, hblanks, htail⟩
    rcases Text.exists_stretch Char.isDigit tail with ⟨ds, rest, rfl, hds, hrest⟩
    unfold leadingNumber? Text.readDigits? at h
    rw [Text.trimStart_append hblanks htail, Text.takeWhile_stretch hds hrest] at h
    split at h
    · case _ hrow =>
        obtain rfl : UInt64.ofNat (Text.value ds) = n := Option.some.inj h
        have hvalue : Text.value ds < UInt64.size :=
          Nat.lt_of_le_pred (by decide) hrow.2.2
        exact ⟨blanks, ds, rest, rfl, hblanks, hrow.1, hds, hrest,
          (UInt64.toNat_ofNat_of_lt' hvalue).symm⟩
    · cases h
  · rintro ⟨blanks, ds, rest, rfl, hblanks, hne, hds, hrest, hvalue⟩
    -- The first digit ends the blanks.
    have hfirst : ∀ c ∈ (ds ++ rest).head?, Text.isBlank c = false := by
      intro c hc
      rw [List.head?_append_of_ne_nil _ hne] at hc
      exact (Text.plain_of_isDigit (hds c (List.mem_of_mem_head? hc))).1
    have hle : Text.value ds ≤ UInt64.size - 1 := by
      rw [hvalue]
      exact Nat.le_sub_one_of_lt n.toNat_lt
    unfold leadingNumber? Text.readDigits?
    rw [Text.trimStart_append hblanks hfirst, Text.takeWhile_stretch hds hrest,
      if_pos ⟨hne, List.all_eq_true.mpr hds, hle⟩, hvalue]
    exact congrArg some UInt64.ofNat_toNat

/-- The grammar of an entry. Without a hyphen it denotes the number it begins
    with. With hyphens it denotes a range, if what stands in front of the first
    and what follows it, up to the next, both begin with a number. -/
inductive Denotes : List Char → MergeEntry → Prop
  | single {cs : List Char} {n : UInt64} : '-' ∉ cs → Leads cs n → Denotes cs (.single n)
  | range {a b rest : List Char} {m n : UInt64} :
      '-' ∉ a → '-' ∉ b → (∀ c ∈ rest.head?, c = '-') → Leads a m → Leads b n →
        Denotes (a ++ '-' :: (b ++ rest)) (.range m n)

theorem parse?_of_notMem (h : '-' ∉ cs) : parse? cs = (leadingNumber? cs).map .single := by
  unfold parse?
  rw [Text.pieces_of_notMem h]

theorem parse?_of_hyphen (ha : '-' ∉ a) (hb : '-' ∉ b) (hrest : ∀ c ∈ rest.head?, c = '-') :
    parse? (a ++ '-' :: (b ++ rest)) =
      (leadingNumber? a).bind fun m => (leadingNumber? b).bind fun n => some (.range m n) := by
  rcases Text.pieces_append_of_head hb hrest with ⟨ps, hps⟩
  unfold parse?
  rw [Text.pieces_append_cons ha, hps]
  rfl

/-- A text has no hyphen, or is cut at the first one and before the second. -/
theorem notMem_or_hyphen (cs : List Char) : '-' ∉ cs ∨ ∃ a b rest,
    cs = a ++ '-' :: (b ++ rest) ∧ '-' ∉ a ∧ '-' ∉ b ∧ ∀ c ∈ rest.head?, c = '-' := by
  by_cases hmem : '-' ∈ cs
  · rcases List.eq_append_cons_of_mem hmem with ⟨a, tail, rfl, ha⟩
    rcases Text.exists_stretch (· != '-') tail with ⟨b, rest, rfl, hb, hrest⟩
    refine Or.inr ⟨a, b, rest, rfl, ha, fun hc => ?_, fun c hc => ?_⟩
    · exact absurd (hb _ hc) (by decide)
    · exact bne_eq_false_iff_eq.mp (hrest c hc)
  · exact Or.inl hmem

/-- An entry is read as its grammar says. -/
theorem parse?_eq_some_iff : parse? cs = some e ↔ Denotes cs e := by
  constructor
  · intro h
    -- A text is one number, or it is cut at its first two hyphens.
    rcases notMem_or_hyphen cs with hno | ⟨a, b, rest, rfl, ha, hb, hrest⟩
    · rw [parse?_of_notMem hno] at h
      rcases Option.map_eq_some_iff.mp h with ⟨n, hn, rfl⟩
      exact .single hno (leadingNumber?_eq_some_iff.mp hn)
    · rw [parse?_of_hyphen ha hb hrest] at h
      rcases Option.bind_eq_some_iff.mp h with ⟨m, hm, h⟩
      rcases Option.bind_eq_some_iff.mp h with ⟨n, hn, h⟩
      cases h
      exact .range ha hb hrest (leadingNumber?_eq_some_iff.mp hm)
        (leadingNumber?_eq_some_iff.mp hn)
  · intro h
    cases h with
    | single hno hn =>
        rw [parse?_of_notMem hno, leadingNumber?_eq_some_iff.mpr hn]
        rfl
    | range ha hb hrest hm hn =>
        rw [parse?_of_hyphen ha hb hrest, leadingNumber?_eq_some_iff.mpr hm,
          leadingNumber?_eq_some_iff.mpr hn]
        rfl

/-- A text of blanks denotes nothing. -/
theorem parse?_of_blank (h : ∀ c ∈ cs, Text.isBlank c = true) : parse? cs = none := by
  have hno : '-' ∉ cs := fun hc => absurd (h _ hc) (by decide)
  have hnumber : leadingNumber? cs = none := by
    have hall : Text.trimStart cs = [] := List.dropWhile_eq_nil_iff.mpr h
    unfold leadingNumber?
    rw [hall]
    rfl
  rw [parse?_of_notMem hno, hnumber]
  rfl

/-- A number in decimal, with blanks around it. -/
def Padded (n : UInt64) (cs : List Char) : Prop :=
  ∃ front back, cs = front ++ (Text.digits n.toNat ++ back) ∧
    (∀ c ∈ front, Text.isBlank c = true) ∧ ∀ c ∈ back, Text.isBlank c = true

theorem Padded.leads (h : Padded n cs) : Leads cs n := by
  rcases h with ⟨front, back, rfl, hfront, hback⟩
  refine ⟨front, _, back, rfl, hfront, Nat.toDigits_ne_nil,
    fun c hc => Text.isDigit_of_mem_digits hc, fun c hc => ?_, Text.value_digits _⟩
  -- A blank is no digit.
  by_contra hdigit
  have hplain := Text.plain_of_isDigit (Bool.of_not_eq_false hdigit)
  rw [hback c (List.mem_of_mem_head? hc)] at hplain
  cases hplain.1

/-- No separator is a blank or a digit, so there is none in a number. -/
theorem Padded.notMem {sep : Char} (h : Padded n cs) (hblank : Text.isBlank sep = false)
    (hdigit : sep.isDigit = false) : sep ∉ cs := by
  rcases h with ⟨front, back, rfl, hfront, hback⟩
  rw [List.mem_append, List.mem_append]
  rintro (hmem | hmem | hmem)
  · rw [hfront _ hmem] at hblank
    cases hblank
  · rw [Text.isDigit_of_mem_digits hmem] at hdigit
    cases hdigit
  · rw [hback _ hmem] at hblank
    cases hblank

/-- An entry in decimal, with blanks around its numbers. -/
inductive Spells : MergeEntry → List Char → Prop
  | single {n : UInt64} {cs : List Char} : Padded n cs → Spells (.single n) cs
  | range {m n : UInt64} {a b : List Char} :
      Padded m a → Padded n b → Spells (.range m n) (a ++ '-' :: b)

/-- An entry that was written denotes itself. -/
theorem Spells.denotes (h : Spells e cs) : Denotes cs e := by
  cases h with
  | single hn => exact .single (hn.notMem rfl rfl) hn.leads
  | @range m n a b hm hn =>
      have hdenotes : Denotes (a ++ '-' :: (b ++ [])) (.range m n) :=
        .range (hm.notMem rfl rfl) (hn.notMem rfl rfl) nofun hm.leads hn.leads
      rwa [List.append_nil] at hdenotes

theorem Spells.notMem {sep : Char} (h : Spells e cs) (hblank : Text.isBlank sep = false)
    (hdigit : sep.isDigit = false) (hhyphen : sep ≠ '-') : sep ∉ cs := by
  cases h with
  | single hn => exact hn.notMem hblank hdigit
  | range hm hn =>
      rw [List.mem_append, List.mem_cons]
      rintro (hmem | hmem | hmem)
      · exact hm.notMem hblank hdigit hmem
      · exact hhyphen hmem
      · exact hn.notMem hblank hdigit hmem

theorem exists_padded (n : UInt64) : ∃ cs, Padded n cs :=
  ⟨_, [], [], rfl, nofun, nofun⟩

theorem exists_spells (e : MergeEntry) : ∃ cs, Spells e cs := by
  cases e with
  | single n =>
      rcases exists_padded n with ⟨cs, hcs⟩
      exact ⟨cs, .single hcs⟩
  | range m n =>
      rcases exists_padded m with ⟨a, ha⟩
      rcases exists_padded n with ⟨b, hb⟩
      exact ⟨_, .range ha hb⟩

end MergeEntry

namespace MergeGroup

variable {cs : List Char} {es : List MergeEntry}

/-- The entries of two texts around a comma are those of the one and then those
    of the other. -/
theorem entries_parse_append (a b : List Char) :
    (parse (a ++ ',' :: b)).entries = (parse a).entries ++ (parse b).entries := by
  unfold parse
  dsimp only
  rw [Text.pieces_append, List.filterMap_append]

/-- A text without commas is one entry. -/
theorem entries_parse_of_notMem (h : ',' ∉ cs) :
    (parse cs).entries = (MergeEntry.parse? cs).toList := by
  unfold parse
  rw [Text.pieces_of_notMem h, List.filterMap_cons, List.filterMap_nil]
  cases MergeEntry.parse? cs with
  | none => rfl
  | some e => rfl

/-- A group in decimal, with blanks around its numbers. One without entries is
    all blank. -/
def Spells (es : List MergeEntry) (cs : List Char) : Prop :=
  (es = [] ∧ ∀ c ∈ cs, Text.isBlank c = true) ∨ Text.Joined ',' MergeEntry.Spells es cs

/-- A group that was written has the entries it was written from. -/
theorem entries_of_spells (h : Spells es cs) : (parse cs).entries = es := by
  rcases h with ⟨rfl, hblank⟩ | hjoined
  · rw [entries_parse_of_notMem fun hc => absurd (hblank _ hc) (by decide),
      MergeEntry.parse?_of_blank hblank]
    rfl
  · have hpieces := hjoined.pieces fun e p hp => hp.notMem rfl rfl (by decide)
    exact filterMap_of_forall₂ <|
      hpieces.imp fun e p hp => MergeEntry.parse?_eq_some_iff.mpr hp.denotes

theorem Spells.notMem (h : Spells es cs) : ';' ∉ cs := by
  rcases h with ⟨-, hblank⟩ | hjoined
  · exact fun hc => absurd (hblank _ hc) (by decide)
  · exact hjoined.notMem (by decide) fun e p hp => hp.notMem rfl rfl (by decide)

theorem exists_spells (es : List MergeEntry) : ∃ cs, Spells es cs := by
  cases es with
  | nil => exact ⟨[], Or.inl ⟨rfl, nofun⟩⟩
  | cons e es =>
      rcases Text.Joined.exists_of_ne_nil ',' (List.cons_ne_nil e es)
        MergeEntry.exists_spells with ⟨cs, hcs⟩
      exact ⟨cs, Or.inr hcs⟩

end MergeGroup

namespace MergeList

/-- A list in decimal, with blanks around its numbers, a piece for each group. -/
def Spells (gs : List (List MergeEntry)) (cs : List Char) : Prop :=
  Text.Joined ';' MergeGroup.Spells gs cs

/-- The groups of two texts around a semicolon are those of the one and then
    those of the other. -/
theorem parse_append (a b : String) : parse (a ++ ";" ++ b) = parse a ++ parse b := by
  have htext : (a ++ ";" ++ b).toList = a.toList ++ ';' :: b.toList := by
    simp
  unfold parse parseChars
  rw [htext, Text.pieces_append, List.map_append]

/-- There is one group more than there are semicolons. -/
theorem length_parse (a : String) : (parse a).length = a.toList.count ';' + 1 := by
  unfold parse parseChars
  rw [List.length_map, Text.length_pieces]

/-- A text without semicolons is one group. -/
theorem parse_of_notMem {a : String} (h : ';' ∉ a.toList) :
    parse a = [MergeGroup.parse a.toList] := by
  unfold parse parseChars
  rw [Text.pieces_of_notMem h]
  rfl

/-- A list that was written has the groups it was written from. -/
theorem entries_of_spells {gs : List (List MergeEntry)} {a : String} (h : Spells gs a.toList) :
    (parse a).map MergeGroup.entries = gs := by
  have hpieces := h.pieces fun es p hp => hp.notMem
  unfold parse parseChars
  rw [List.map_map, eq_comm, ← List.forall₂_eq_eq_eq, List.forall₂_map_right_iff]
  exact hpieces.imp fun es p hp => (MergeGroup.entries_of_spells hp).symm

end MergeList

/-- A merge list is read by its grammar, part by part. What is read of two texts
    around a semicolon, and so their estimates and what they expand to, is what
    is read of each, and there is one group more than there are semicolons. The
    entries of two groups around a comma are those of each, so an entry that
    denotes nothing leaves the others alone. A text without separators has the
    entry that it denotes, and none if there is no such entry. Every list of one
    or more groups, of any entries, can be written in decimal, and is read from
    what was written wherever blanks were put around its numbers. -/
theorem merge_lists_follow_grammar :
    (∀ a b : String,
      MergeList.parse (a ++ ";" ++ b) = MergeList.parse a ++ MergeList.parse b ∧
      (∀ (α : Type) [Scalar α] (pairs : List (Pair α)),
        MergeList.naiveTimes (a ++ ";" ++ b) pairs =
          MergeList.naiveTimes a pairs ++ MergeList.naiveTimes b pairs) ∧
      MergeList.expand (a ++ ";" ++ b) = MergeList.expand a ++ MergeList.expand b ∧
      (MergeList.parse a).length = a.toList.count ';' + 1) ∧
    (∀ u v : String, ';' ∉ u.toList → ';' ∉ v.toList →
      ∃ g h k, MergeList.parse u = [g] ∧ MergeList.parse v = [h] ∧
        MergeList.parse (u ++ "," ++ v) = [k] ∧ k.entries = g.entries ++ h.entries) ∧
    (∀ s : String, ',' ∉ s.toList → ';' ∉ s.toList →
      ∃ g, MergeList.parse s = [g] ∧
        (∀ e, g.entries = [e] ↔ MergeEntry.Denotes s.toList e) ∧
        (g.entries = [] ↔ ∀ e, ¬ MergeEntry.Denotes s.toList e)) ∧
    ∀ gs : List (List MergeEntry), gs ≠ [] →
      (∃ s : String, MergeList.Spells gs s.toList) ∧
      ∀ s : String, MergeList.Spells gs s.toList →
        (MergeList.parse s).map MergeGroup.entries = gs := by
  refine ⟨fun a b => ⟨MergeList.parse_append a b, fun α _ pairs => ?_, ?_,
    MergeList.length_parse a⟩, fun u v hu hv => ?_, fun s hcomma hsemicolon => ?_,
    fun gs hne => ⟨?_, fun s hs => MergeList.entries_of_spells hs⟩⟩
  · unfold MergeList.naiveTimes
    rw [MergeList.parse_append, List.map_append]
  · unfold MergeList.expand
    rw [MergeList.parse_append, List.filterMap_append]
  · have htext : (u ++ "," ++ v).toList = u.toList ++ ',' :: v.toList := by
      simp
    -- Joining two texts without semicolons by a comma brings none in, so the whole is one group.
    have hboth : ';' ∉ (u ++ "," ++ v).toList := by
      rw [htext, List.mem_append, List.mem_cons]
      rintro (hmem | hmem | hmem)
      · exact hu hmem
      · exact absurd hmem (by decide)
      · exact hv hmem
    refine ⟨_, _, _, MergeList.parse_of_notMem hu, MergeList.parse_of_notMem hv,
      MergeList.parse_of_notMem hboth, ?_⟩
    rw [htext]
    exact MergeGroup.entries_parse_append _ _
  · refine ⟨_, MergeList.parse_of_notMem hsemicolon, fun e => ?_, ?_⟩
    · rw [MergeGroup.entries_parse_of_notMem hcomma, ← MergeEntry.parse?_eq_some_iff,
        Option.toList_eq_singleton_iff]
    · rw [MergeGroup.entries_parse_of_notMem hcomma, Option.toList_eq_nil_iff,
        Option.eq_none_iff_forall_ne_some]
      exact forall_congr' fun e => not_congr MergeEntry.parse?_eq_some_iff
  · rcases Text.Joined.exists_of_ne_nil ';' hne MergeGroup.exists_spells with ⟨cs, hcs⟩
    exact ⟨String.ofList cs, by rwa [MergeList.Spells, String.toList_ofList]⟩

/-- A range up to the largest number, behind a blank that is not ASCII and in
    front of another hyphen, and a list with a group of two entries and one of
    none. -/
theorem merge_lists_follow_grammar_loose :
    (∃ g, MergeList.parse "\u20033-18446744073709551615x-7" = [g] ∧
      g.entries = [.range 3 18446744073709551615]) ∧
    (MergeList.parse "7\t,5 -3; ").map MergeGroup.entries = [[.single 7, .range 5 3], []] := by
  rcases merge_lists_follow_grammar with ⟨-, -, hentry, hlist⟩
  constructor
  · rcases hentry "\u20033-18446744073709551615x-7" (by decide +kernel) (by decide +kernel) with
      ⟨g, hg, hdenotes, -⟩
    refine ⟨g, hg, (hdenotes _).mpr ?_⟩
    -- The blank is an em space, and what stands behind the digits is passed over.
    have hthree : MergeEntry.Leads "\u20033".toList 3 :=
      ⟨['\u2003'], ['3'], [], rfl, List.all_eq_true.mp rfl, List.cons_ne_nil _ _,
        List.all_eq_true.mp rfl, nofun, rfl⟩
    have hlargest : MergeEntry.Leads "18446744073709551615x".toList 18446744073709551615 :=
      ⟨[], "18446744073709551615".toList, ['x'], by decide +kernel, List.forall_mem_nil _,
        by decide +kernel, List.all_eq_true.mp (by decide +kernel), by rintro c ⟨⟩; rfl,
        by decide +kernel⟩
    have hrange : MergeEntry.Denotes
        ("\u20033".toList ++ '-' :: ("18446744073709551615x".toList ++ "-7".toList))
        (.range 3 18446744073709551615) :=
      .range (by decide) (by decide +kernel) (by rintro c ⟨⟩; rfl) hthree hlargest
    exact hrange
  · refine (hlist _ (List.cons_ne_nil _ _)).2 _ ?_
    -- Blanks may stand around either number, and a group may have nothing but blanks.
    have hseven : MergeEntry.Spells (.single 7) "7\t".toList :=
      .single ⟨[], ['\t'], rfl, List.forall_mem_nil _, List.all_eq_true.mp rfl⟩
    have hrange : MergeEntry.Spells (.range 5 3) "5 -3".toList :=
      .range ⟨[], [' '], rfl, List.forall_mem_nil _, List.all_eq_true.mp rfl⟩
        ⟨[], [], rfl, List.forall_mem_nil _, List.forall_mem_nil _⟩
    have hpair : MergeGroup.Spells [.single 7, .range 5 3] "7\t,5 -3".toList :=
      Or.inr (Text.Joined.next hseven (.last hrange))
    have hnone : MergeGroup.Spells [] " ".toList := Or.inl ⟨rfl, List.all_eq_true.mp rfl⟩
    exact Text.Joined.next hpair (.last hnone)

end Retime
