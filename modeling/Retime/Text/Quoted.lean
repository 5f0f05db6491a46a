import Retime.Text.Marks
import Retime.Text.Shapeless

/-!
# Quoted Text

A text as a message shows it that quotes what was found: between quotes, with
everything escaped that a reader could not see or could mistake.

Escaped by name are the quote, the backslash and the common control
characters. Any other character without a shape of its own is written with its
number, and so is a mark that would attach itself to the character before.

## Main definitions

* `quoted`: A text in quotes.
-/

namespace Retime

namespace Text

/-- Whether a number lies in one of the ranges, whose ends belong to them. -/
def inRanges (ranges : List (Nat × Nat)) (n : Nat) : Bool :=
  ranges.any fun (lo, hi) => lo ≤ n && n ≤ hi

/-- The digits of a number in base sixteen, in lower case. -/
def hexDigits (n : Nat) : List Char :=
  Nat.toDigits 16 n

/-- A character inside a quoted text. -/
def quotedChar (c : Char) : List Char :=
  if c = '"' then ['\\', '"']
  else if c = '\\' then ['\\', '\\']
  else if c = '\n' then ['\\', 'n']
  else if c = '\r' then ['\\', 'r']
  else if c = '\t' then ['\\', 't']
  else if c = '\x00' then ['\\', '0']
  else if inRanges shapeless c.toNat || inRanges attaching c.toNat then
    '\\' :: 'u' :: '\x7b' :: (hexDigits c.toNat ++ ['\x7d'])
  else [c]

/-- A text in quotes. -/
def quoted (s : String) : String :=
  String.ofList ('"' :: (s.toList.flatMap quotedChar ++ ['"']))

end Text

end Retime
