import Retime.Frame.Crop
import Retime.Proofs.WrittenTokens

/-!
# Crops as Text

A crop that was written is read as the same crop.

A written crop holds no blanks, so trimming leaves it alone, and its four
components hold no colon, so they are the pieces between the colons. A number
of pixels is below the bound of what is read, and no number is taken for the
symbol of a full extent.

## Theorems

* `Text.trim_eq_self`: A text without blanks is left alone.
* `Text.pieces_eq_self`: A text without separators is one piece.
* `Text.readNat?_digits`: A written number is read.
* `Crop.pieces_components`: The components of a written crop are its pieces.
* `Crop.parse_text`: A written crop is read.
-/

namespace Retime

namespace Text

theorem trim_eq_self {cs : List Char} (h : ∀ c ∈ cs, isBlank c = false) : trim cs = cs := by
  have hstart : ∀ ds : List Char, (∀ c ∈ ds, isBlank c = false) → trimStart ds = ds := by
    intro ds hds
    cases ds with
    | nil => rfl
    | cons d ds =>
        refine List.dropWhile_cons_of_neg ?_
        rw [hds d List.mem_cons_self]
        exact Bool.false_ne_true
  unfold trim
  rw [hstart cs h, hstart _ fun c hc => h c (List.mem_reverse.mp hc), List.reverse_reverse]

theorem pieces_eq_self {sep : Char} {cs : List Char} (h : ∀ c ∈ cs, c ≠ sep) :
    pieces sep cs = [cs] := by
  induction cs with
  | nil => rfl
  | cons c cs ih =>
      rcases List.forall_mem_cons.mp h with ⟨hc, hcs⟩
      rw [pieces, if_neg hc, ih hcs]

/-- A written number is read, up to the bound. -/
theorem readNat?_digits {limit n : Nat} (h : n ≤ limit) : readNat? limit (digits n) = some n := by
  have hread : readDigits? limit (digits n) = some n := by
    unfold readDigits?
    rw [value_digits, if_pos]
    exact ⟨Nat.toDigits_ne_nil, List.all_eq_true.mpr fun c hc => isDigit_of_mem_digits hc, h⟩
  unfold readNat?
  split
  · next cs hcs =>
      have hplus : '+' ∈ digits n := hcs ▸ List.mem_cons_self
      exact absurd (isDigit_of_mem_digits hplus) (by decide)
  · exact hread

/-- No digit is a blank or a colon. -/
theorem plain_of_isDigit {c : Char} (h : c.isDigit = true) : isBlank c = false ∧ c ≠ ':' := by
  have hrange : 48 ≤ c.toNat ∧ c.toNat ≤ 57 := by
    simpa [Char.isDigit, UInt32.le_iff_toNat_le] using h
  constructor
  · simp only [isBlank, Bool.or_eq_false_iff, Bool.and_eq_false_iff, decide_eq_false_iff_not,
      beq_eq_false_iff_ne]
    omega
  · rintro rfl
    exact absurd hrange.2 (by decide)

end Text

namespace Crop

/-- The characters of an extent. -/
def extentChars (symbol : List Char) : Extent → List Char
  | .pixels n => Text.digits n.toNat
  | .full => symbol

/-- A number of pixels is read as it is written. -/
theorem parsePixels_digits (name : String) (n : UInt32) :
    parsePixels name (Text.digits n.toNat) = .ok n := by
  have hmax : n.toNat ≤ maxPixels := Nat.le_sub_one_of_lt n.toNat_lt
  unfold parsePixels
  rw [Text.readNat?_digits hmax]
  exact congrArg Except.ok UInt32.ofNat_toNat

/-- An extent is read as it is written, if its symbol is not a number. -/
theorem parseExtent_chars {c : Char} {cs : List Char} (hc : c.isDigit = false) (name : String)
    (e : Extent) : parseExtent (c :: cs) name (extentChars (c :: cs) e) = .ok e := by
  unfold parseExtent
  cases e with
  | full => exact if_pos rfl
  | pixels n =>
      rw [extentChars, if_neg, parsePixels_digits]
      · rfl
      · -- A symbol that begins with no digit is the text of no number.
        intro heq
        have hmem : c ∈ Text.digits n.toNat := heq ▸ List.mem_cons_self
        have hdigit := Text.isDigit_of_mem_digits hmem
        rw [hc] at hdigit
        cases hdigit

/-- There are no blanks and no colons in the symbols of full extents. -/
theorem clean_symbols : (∀ d ∈ ['i', 'w'], Text.isBlank d = false ∧ d ≠ ':') ∧
    ∀ d ∈ ['i', 'h'], Text.isBlank d = false ∧ d ≠ ':' := by
  constructor
  · exact List.forall_mem_cons.mpr
      ⟨⟨rfl, by decide⟩, List.forall_mem_singleton.mpr ⟨rfl, by decide⟩⟩
  · exact List.forall_mem_cons.mpr
      ⟨⟨rfl, by decide⟩, List.forall_mem_singleton.mpr ⟨rfl, by decide⟩⟩

/-- The characters of an extent are no blanks and no colons. -/
theorem plain_extentChars {symbol : List Char}
    (h : ∀ c ∈ symbol, Text.isBlank c = false ∧ c ≠ ':') (e : Extent) :
    ∀ c ∈ extentChars symbol e, Text.isBlank c = false ∧ c ≠ ':' := by
  cases e with
  | full => exact h
  | pixels n => exact fun c hc => Text.plain_of_isDigit (Text.isDigit_of_mem_digits hc)

theorem toList_extent (symbol : String) (e : Extent) :
    (e.text symbol).toList = extentChars symbol.toList e := by
  cases e with
  | full => rfl
  | pixels n => exact String.toList_ofList

theorem toList_text (c : Crop) :
    c.text.toList = Text.digits c.x.toNat ++ ':' :: (Text.digits c.y.toNat ++
      ':' :: (extentChars ['i', 'w'] c.width ++ ':' :: extentChars ['i', 'h'] c.height)) := by
  have hcolon : ":".toList = [':'] := rfl
  have hwidth : "iw".toList = ['i', 'w'] := rfl
  have hheight : "ih".toList = ['i', 'h'] := rfl
  unfold text Text.natText
  simp only [String.toList_append, String.toList_ofList, toList_extent, hcolon, hwidth, hheight,
    List.append_assoc, List.cons_append, List.nil_append]

/-- Components without blanks and colons are what a text of them is cut into. -/
theorem pieces_components {x y w h : List Char}
    (hx : ∀ d ∈ x, Text.isBlank d = false ∧ d ≠ ':')
    (hy : ∀ d ∈ y, Text.isBlank d = false ∧ d ≠ ':')
    (hw : ∀ d ∈ w, Text.isBlank d = false ∧ d ≠ ':')
    (hh : ∀ d ∈ h, Text.isBlank d = false ∧ d ≠ ':') :
    (Text.pieces ':' (Text.trim (x ++ ':' :: (y ++ ':' :: (w ++ ':' :: h))))).map Text.trim =
      [x, y, w, h] := by
  have hpiece : ∀ {cs : List Char}, (∀ d ∈ cs, Text.isBlank d = false ∧ d ≠ ':') →
      Text.pieces ':' cs = [cs] := fun h => Text.pieces_eq_self fun d hd => (h d hd).2
  have htrim : ∀ {cs : List Char}, (∀ d ∈ cs, Text.isBlank d = false ∧ d ≠ ':') →
      Text.trim cs = cs := fun h => Text.trim_eq_self fun d hd => (h d hd).1
  -- Neither the text nor a component has a blank that could be trimmed.
  have htext : Text.trim (x ++ ':' :: (y ++ ':' :: (w ++ ':' :: h))) =
      x ++ ':' :: (y ++ ':' :: (w ++ ':' :: h)) := by
    refine Text.trim_eq_self fun d hd => ?_
    simp only [List.mem_append, List.mem_cons] at hd
    rcases hd with hd | rfl | hd | rfl | hd | rfl | hd
    · exact (hx d hd).1
    · rfl
    · exact (hy d hd).1
    · rfl
    · exact (hw d hd).1
    · rfl
    · exact (hh d hd).1
  rw [htext, Text.pieces_append, Text.pieces_append, Text.pieces_append, hpiece hx, hpiece hy,
    hpiece hw, hpiece hh]
  simp only [List.cons_append, List.nil_append, List.map_cons, List.map_nil, htrim hx, htrim hy,
    htrim hw, htrim hh]

/-- A written crop is read. -/
theorem parse_text {α : Type} (c : Crop) :
    (parse c.text : Except (MarkerError α) Crop) = .ok c := by
  -- No part has a separator or a blank in it, so the text is cut where it was joined.
  have hdigits : ∀ n, ∀ d ∈ Text.digits n, Text.isBlank d = false ∧ d ≠ ':' :=
    fun n d hd => Text.plain_of_isDigit (Text.isDigit_of_mem_digits hd)
  have hwidth : ∀ d ∈ extentChars ['i', 'w'] c.width, Text.isBlank d = false ∧ d ≠ ':' :=
    plain_extentChars clean_symbols.1 c.width
  have hheight : ∀ d ∈ extentChars ['i', 'h'] c.height, Text.isBlank d = false ∧ d ≠ ':' :=
    plain_extentChars clean_symbols.2 c.height
  have hchars : parseChars c.text.toList = .ok c := by
    unfold parseChars
    rw [toList_text, pieces_components (hdigits _) (hdigits _) hwidth hheight]
    dsimp only
    rw [parsePixels_digits, parsePixels_digits, parseExtent_chars rfl, parseExtent_chars rfl]
    rfl
  unfold parse
  rw [hchars]

end Crop

end Retime
