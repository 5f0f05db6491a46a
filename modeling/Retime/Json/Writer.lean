import Retime.Decimal.Layout
import Retime.Json.Value

/-!
# Writing JSON

Values as text, on one line or spread over lines with an indent of two
blanks. The two differ only in what stands between the tokens, so there is
one writer, and a style says what it puts there.

A scalar that is not finite has no form in a document and is written `null`.
Characters outside ASCII stand for themselves.

## Main definitions

* `Json.Style`: What stands between the tokens.
* `Json.compact`, `Json.pretty`: A value on one line, and over several.
-/

namespace Retime

namespace Json

/-- A hexadecimal digit, in lower case. -/
def hexDigit (n : Nat) : Char :=
  Nat.digitChar (n % 16)

/-- A character inside a string. Only the quote, the backslash and control
    characters may not stand for themselves. -/
def escape (c : Char) : List Char :=
  if c = '"' then ['\\', '"']
  else if c = '\\' then ['\\', '\\']
  else if c = '\n' then ['\\', 'n']
  else if c = '\r' then ['\\', 'r']
  else if c = '\t' then ['\\', 't']
  else if c = '\x08' then ['\\', 'b']
  else if c = '\x0c' then ['\\', 'f']
  else if c.toNat < 0x20 then
    ['\\', 'u', '0', '0', hexDigit (c.toNat / 16), hexDigit c.toNat]
  else [c]

/-- A string between its quotes. -/
def quote (s : String) : String :=
  String.ofList ('"' :: (s.toList.flatMap escape ++ ['"']))

/-- What a number looks like in a document. -/
def numberForm : Number Float → String
  | .whole n => Text.intText n
  | .real x => if x.isFinite then documentNumberText x else "null"

/-- What stands between the tokens of a written value. -/
structure Style where
  /-- What starts a member or an item at a depth of nesting. -/
  line : (depth : Nat) → String
  /-- What stands between a key and its value. -/
  colon : String

mutual

/-- A value at a depth of nesting. -/
def render (style : Style) (depth : Nat) : Json Float → String
  | .null => "null"
  | .bool b => if b then "true" else "false"
  | .number n => numberForm n
  | .string s => quote s
  | .array [] => "[]"
  | .array (v :: vs) => "[" ++ renderItems style (depth + 1) (v :: vs) ++ style.line depth ++ "]"
  | .object [] => "\x7b\x7d"
  | .object (m :: ms) =>
    "\x7b" ++ renderMembers style (depth + 1) (m :: ms) ++ style.line depth ++ "\x7d"

/-- The items of an array. -/
def renderItems (style : Style) (depth : Nat) : List (Json Float) → String
  | [] => ""
  | [v] => style.line depth ++ render style depth v
  | v :: vs => style.line depth ++ render style depth v ++ "," ++ renderItems style depth vs

/-- The members of an object. -/
def renderMembers (style : Style) (depth : Nat) : List (String × Json Float) → String
  | [] => ""
  | [(k, v)] => style.line depth ++ quote k ++ style.colon ++ render style depth v
  | (k, v) :: ms =>
    style.line depth ++ quote k ++ style.colon ++ render style depth v ++ "," ++
      renderMembers style depth ms

end

/-- A value on one line. -/
def compact (v : Json Float) : String :=
  render ⟨fun _ => "", ":"⟩ 0 v

/-- A value over several lines, two blanks deeper at each level. -/
def pretty (v : Json Float) : String :=
  render ⟨fun depth => String.ofList ('\n' :: List.replicate (2 * depth) ' '), ": "⟩ 0 v

end Json

end Retime
