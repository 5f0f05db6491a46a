import Retime.Decimal.Numeral
import Retime.Json.Source

/-!
# Reading JSON

From a text to its structure.

Reading goes from left to right and takes one value at a time, each reader
returning what follows the part it has read. A text can fail in two ways:
some character cannot stand where it stands, or the text ends too early. The
two are told apart everywhere, as somebody who is still typing wants to know.

Where the text fails, a reader of containers returns what it has read so far,
and the failure in place of what follows. That failure is the one that is seen
by somebody who passes over the text; what others see is part of the break.

Nesting is what the recursion follows, and it is bounded by the length of the
text. A container takes two steps for one bracket, so twice the length is the
fuel.

## Main definitions

* `Source.readValue`: The structure of a value at the start of a text.
* `Source.parse`: The structure of a whole text.
-/

namespace Retime

namespace Source

/-- The containers in a row that are looked at. -/
def maxDepth : Nat := 127

/-- The text from its next token on. -/
def skip (cs : List Char) : List Char :=
  cs.dropWhile fun c => c = ' ' || c = '\n' || c = '\t' || c = '\r'

/-- Reads the rest of a word. -/
def readWord (v : Source) : (word : List Char) → List Char → Except TextError (Source × List Char)
  | [], cs => .ok (v, cs)
  | _ :: _, [] => .error .unfinished
  | w :: word, c :: cs => if c = w then readWord v word cs else .error .malformed

/-- Reads the digits in front of a point. They start with a zero only if that
    is all there is. -/
def readWhole : List Char → Except TextError (List Char × List Char)
  | [] => .error .unfinished
  | '0' :: cs =>
    match cs with
    | c :: _ => if c.isDigit then .error .malformed else .ok (['0'], cs)
    | [] => .ok (['0'], cs)
  | c :: cs =>
    if c.isDigit then .ok (Numeral.spanDigits (c :: cs)) else .error .malformed

/-- Reads one digit or more. -/
def readDigits (cs : List Char) : Except TextError (List Char × List Char) :=
  match Numeral.spanDigits cs with
  | ([], []) => .error .unfinished
  | ([], _ :: _) => .error .malformed
  | part => .ok part

/-- Reads the digits behind a point, if there is one. -/
def readFraction : List Char → Except TextError (Option (List Char) × List Char)
  | '.' :: cs => do
    let (ds, rest) ← readDigits cs
    return (some ds, rest)
  | cs => .ok (none, cs)

/-- Reads an exponent, if there is one. -/
def readExponent : List Char → Except TextError (Option Int × List Char)
  | [] => .ok (none, [])
  | c :: cs =>
    if c = 'e' ∨ c = 'E' then do
      let (negative, cs) :=
        match cs with
        | '-' :: cs => (true, cs)
        | '+' :: cs => (false, cs)
        | cs => (false, cs)
      let (ds, rest) ← readDigits cs
      let n : Int := Text.value ds
      return (some (if negative then -n else n), rest)
    else
      .ok (none, c :: cs)

/-- Reads a number from behind its sign. -/
def readNumber (negative : Bool) (cs : List Char) : Except TextError (Source × List Char) := do
  let (whole, cs) ← readWhole cs
  let (places, cs) ← readFraction cs
  let (exponent, cs) ← readExponent cs
  return (.number { negative, whole, places, exponent }, cs)

/-- The value of a hexadecimal digit. -/
def hexValue? (c : Char) : Option Nat :=
  if c.isDigit then some (c.toNat - '0'.toNat)
  else if 'a' ≤ c ∧ c ≤ 'f' then some (c.toNat - 'a'.toNat + 10)
  else if 'A' ≤ c ∧ c ≤ 'F' then some (c.toNat - 'A'.toNat + 10)
  else none

/-- The number that four hexadecimal digits denote. -/
def hexUnit? (a b c d : Char) : Option Nat := do
  let a ← hexValue? a
  let b ← hexValue? b
  let c ← hexValue? c
  let d ← hexValue? d
  return 4096 * a + 256 * b + 16 * c + d

/-- The character that a short escape stands for. -/
def escaped? : Char → Option Char
  | '"' => some '"'
  | '\\' => some '\\'
  | '/' => some '/'
  | 'b' => some '\x08'
  | 'f' => some '\x0c'
  | 'n' => some '\n'
  | 'r' => some '\r'
  | 't' => some '\t'
  | _ => none

/-- What follows a part of a text, or how the text fails before its end. -/
abbrev Rest := Except TextError (List Char)

/-- How the text fails, if it does. -/
def failure? : Rest → Option TextError
  | .ok _ => none
  | .error e => some e

/-- Reads a string from behind its opening quote, as code points and halves of
    surrogate pairs, as far as it goes. A long escape is cut off by the end of
    the text when four bytes are not left for it. -/
def readUnits : List Char → List Nat × Rest
  | [] => ([], .error .unfinished)
  | '"' :: cs => ([], .ok cs)
  | '\\' :: 'u' :: a :: b :: c :: d :: cs =>
    match hexUnit? a b c d with
    | some n =>
      let (ns, rest) := readUnits cs
      (n :: ns, rest)
    | none => ([], .error .malformed)
  -- Fewer than four characters, which may still have the four bytes of an escape.
  | '\\' :: 'u' :: cs =>
    ([], .error (if (String.ofList cs).utf8ByteSize < 4 then .unfinished else .malformed))
  | ['\\'] => ([], .error .unfinished)
  | '\\' :: c :: cs =>
    match escaped? c with
    | some c =>
      let (ns, rest) := readUnits cs
      (c.toNat :: ns, rest)
    | none => ([], .error .malformed)
  | c :: cs =>
    if c.toNat < 0x20 then
      ([], .error .malformed)
    else
      let (ns, rest) := readUnits cs
      (c.toNat :: ns, rest)

/-- Whether a unit is the first half of a surrogate pair. -/
def leads (n : Nat) : Bool :=
  0xD800 ≤ n && n < 0xDC00

/-- Whether a unit is the second half of a surrogate pair. -/
def trails (n : Nat) : Bool :=
  0xDC00 ≤ n && n < 0xE000

/-- The characters that a row of units stands for: two halves of a surrogate
    pair are one character, and a half alone is none. -/
def joinUnits? : List Nat → Option (List Char)
  | [] => some []
  | n :: ns =>
    -- Neither half of a surrogate pair may stand without the other.
    if leads n then
      match ns with
      | m :: rest =>
        if trails m then
          (joinUnits? rest).map
            (Char.ofNat (0x10000 + 0x400 * (n - 0xD800) + (m - 0xDC00)) :: ·)
        else none
      | [] => none
    else if trails n then none
    else (joinUnits? ns).map (Char.ofNat n :: ·)

/-- Whether a row of units can be the start of one that stands for characters. -/
def isJoinable : List Nat → Bool
  | [] => true
  | n :: ns =>
    if leads n then
      match ns with
      | m :: rest => trails m && isJoinable rest
      | [] => true
    else !trails n && isJoinable ns

/-- Reads a string from behind its opening quote. It may be well-formed and
    yet have no value, and where it breaks off it may have none already. -/
def readString (cs : List Char) : Except Break (Except TextError String × List Char) :=
  match readUnits cs with
  | (units, .ok rest) =>
    match joinUnits? units with
    | some cs => .ok (.ok (String.ofList cs), rest)
    | none => .ok (.error .malformed, rest)
  | (units, .error e) => .error (.ofString (if isJoinable units then e else .malformed) e)

/-- A text that breaks off at a place. -/
def breakOff (place : Break) : Source × Rest :=
  (.broken place, .error place.passed)

/-- A part that is read as a whole or not at all, with the break that a failure
    makes. -/
def token (place : TextError → Break) : Except TextError (Source × List Char) → Source × Rest
  | .ok (v, rest) => (v, .ok rest)
  | .error e => breakOff (place e)

/-- A string as a value. -/
def stringValue : Except Break (Except TextError String × List Char) → Source × Rest
  | .ok (.ok s, rest) => (.string s, .ok rest)
  | .ok (.error _, rest) => (.unreadable none, .ok rest)
  | .error place => breakOff place

/-- Items that neither go on nor end. -/
def breakItems (items : List Source) (e : TextError) : List Source × Rest :=
  (items ++ [.broken (.ofEnd e)], .error e)

/-- A member that breaks off in front of its value. -/
def breakMember (key : Except TextError String) (place : Break) : List Member × Rest :=
  ([(key, .broken place)], .error place.passed)

/-- Members that neither go on nor end. -/
def breakMembers (members : List Member) (e : TextError) : List Member × Rest :=
  (members ++ [(.error e, .broken (.ofEnd e))], .error e)

/-- A container of a depth, or what is left of it if that is too deep. -/
def contained (depth : Nat) (v : Source) (rest : Rest) : Source × Rest :=
  (if depth < maxDepth then v else .unreadable (failure? rest), rest)

mutual

/-- Reads a value. -/
def readValue : (fuel depth : Nat) → List Char → Source × Rest
  | 0, _, _ => breakOff (.ofValue .unfinished)
  | fuel + 1, depth, cs =>
    match skip cs with
    | [] => breakOff (.ofValue .unfinished)
    -- A row that is empty ends here, so that none can end behind a comma.
    | '[' :: cs =>
      match skip cs with
      | ']' :: rest => contained depth (.array []) (.ok rest)
      | cs =>
        let (items, rest) := readItems fuel (depth + 1) cs
        contained depth (.array items) rest
    | '{' :: cs =>
      match skip cs with
      | '}' :: rest => contained depth (.object []) (.ok rest)
      | cs =>
        let (members, rest) := readMembers fuel (depth + 1) cs
        contained depth (.object members) rest
    | '"' :: cs => stringValue (readString cs)
    | 'n' :: cs => token .ofValue (readWord .null ['u', 'l', 'l'] cs)
    | 't' :: cs => token .ofWord (readWord (.bool true) ['r', 'u', 'e'] cs)
    | 'f' :: cs => token .ofWord (readWord (.bool false) ['a', 'l', 's', 'e'] cs)
    | '-' :: cs => token .ofNumber (readNumber true cs)
    | c :: cs =>
      if c.isDigit then token .ofNumber (readNumber false (c :: cs))
      else breakOff (.ofValue .malformed)

/-- Reads the items of an array that has at least one, up to its bracket. -/
def readItems : (fuel depth : Nat) → List Char → List Source × Rest
  | 0, _, _ => breakItems [] .unfinished
  | fuel + 1, depth, cs =>
    match readValue fuel depth cs with
    | (v, .error e) => ([v], .error e)
    | (v, .ok rest) =>
      match skip rest with
      | [] => breakItems [v] .unfinished
      | ']' :: rest => ([v], .ok rest)
      | ',' :: rest =>
        let (vs, rest) := readItems fuel depth rest
        (v :: vs, rest)
      -- The item is kept, since what is wrong with it is told before what follows.
      | _ :: _ => breakItems [v] .malformed

/-- Reads the members of an object that has at least one, up to its brace. -/
def readMembers : (fuel depth : Nat) → List Char → List Member × Rest
  | 0, _, _ => breakMembers [] .unfinished
  | fuel + 1, depth, cs =>
    match skip cs with
    | [] => breakMember (.error .unfinished) (.ofValue .unfinished)
    | '"' :: cs =>
      match readString cs with
      | .error place => breakMember (.error place.taken) place
      | .ok (key, rest) =>
        match skip rest with
        | [] => breakMember key (.ofValue .unfinished)
        | ':' :: rest =>
          match readValue fuel depth rest with
          | (v, .error e) => ([(key, v)], .error e)
          | (v, .ok rest) =>
            match skip rest with
            | [] => breakMembers [(key, v)] .unfinished
            | '}' :: rest => ([(key, v)], .ok rest)
            | ',' :: rest =>
              let (ms, rest) := readMembers fuel depth rest
              ((key, v) :: ms, rest)
            | _ :: _ => breakMembers [(key, v)] .malformed
        | _ :: _ => breakMember key (.ofValue .malformed)
    | _ :: _ => breakMember (.error .malformed) (.ofValue .malformed)

end

/-- The structure of a whole text as far as it is JSON, and how it fails to
    be, if it does. -/
def parse (text : String) : Source × Option TextError :=
  let cs := text.toList
  match readValue (2 * cs.length + 1) 0 cs with
  | (v, .error e) => (v, some e)
  | (v, .ok rest) => (v, if (skip rest).isEmpty then none else some .malformed)

end Source

end Retime
