/-!
# Blanks and Pieces

How a line of text is cut up before anything in it is read: into pieces at a
separator, and each piece freed of the blanks around it.

A blank is a character with the Unicode property `White_Space`. There are
twenty-five of them, and most are not ASCII; a text pasted from elsewhere
brings no-break and ideographic spaces along, and they have to fall away like
any other.

## Main definitions

* `isBlank`: The characters of the property.
* `trimStart`, `trim`: A text without the blanks at its start, or at both ends.
* `pieces`: The stretches of a text between separators.

## Theorems

* `pieces_ne_nil`: There is always at least one piece.
* `length_pieces`: There is one piece more than there are separators.
* `pieces_append`: Pieces of two texts around a separator.
-/

namespace Retime

namespace Text

/-- The characters of the property `White_Space`. -/
def isBlank (c : Char) : Bool :=
  let n := c.toNat
  (9 ≤ n && n ≤ 13) || n == 0x20 || n == 0x85 || n == 0xA0 || n == 0x1680 ||
    (0x2000 ≤ n && n ≤ 0x200A) || n == 0x2028 || n == 0x2029 || n == 0x202F ||
    n == 0x205F || n == 0x3000

/-- A text without the blanks it starts with. -/
def trimStart (cs : List Char) : List Char :=
  cs.dropWhile isBlank

/-- A text without the blanks at its two ends. -/
def trim (cs : List Char) : List Char :=
  (trimStart (trimStart cs).reverse).reverse

/-- The stretches between separators, the empty ones included. -/
def pieces (sep : Char) : List Char → List (List Char)
  | [] => [[]]
  | c :: cs =>
    if c = sep then
      [] :: pieces sep cs
    else
      match pieces sep cs with
      | [] => [[c]]
      | p :: ps => (c :: p) :: ps

/-- There is always a piece, if only an empty one. -/
theorem pieces_ne_nil (sep : Char) (cs : List Char) : pieces sep cs ≠ [] := by
  cases cs with
  | nil => simp [pieces]
  | cons c cs =>
    rw [pieces]
    split
    · simp
    · split <;> simp

/-- There is one piece more than there are separators. -/
theorem length_pieces (sep : Char) (cs : List Char) :
    (pieces sep cs).length = cs.count sep + 1 := by
  induction cs with
  | nil => simp [pieces]
  | cons c cs ih =>
    rw [pieces]
    -- A separator begins another piece, and any other character goes to the first one.
    split
    · next h => simp [ih, h]
    · next h =>
      have hne := pieces_ne_nil sep cs
      split
      · next hp => exact absurd hp hne
      · next p ps hp =>
        rw [hp] at ih
        simpa [List.count_cons, h] using ih

/-- A separator ends the pieces of one text and starts those of another. -/
theorem pieces_append (sep : Char) (a b : List Char) :
    pieces sep (a ++ sep :: b) = pieces sep a ++ pieces sep b := by
  induction a with
  | nil => simp [pieces]
  | cons c a ih =>
    rw [List.cons_append, pieces, pieces, ih]
    split
    · simp
    · have hne := pieces_ne_nil sep a
      cases hp : pieces sep a with
      | nil => exact absurd hp hne
      | cons p ps => simp

end Text

end Retime
