import Retime.Document.Shape
import Retime.Proofs.WrittenTokens
import Retime.Scalar.Double

/-!
# Written Values

What is read of a value that was written.

A value is written by recursion over its structure, and it is read by recursion
over fuel, from a text that goes on behind it. So what is proved of a value is
that it is read in front of any text, with as much fuel as twice its length
gives. Between the tokens stand blanks only, and the reader skips them where it
looks for the next token; `Style.Blank` is all that is asked of a style.

A value comes back as a structure, `source`, in which every number stands as it
is spelled. Which double a spelling denotes is not certain, because reading
rounds twice. So the doubles of a value, `reals`, are asked one by one whether
they are read back, and nothing is asked of other doubles. Those that are not
finite are written as null.

## Main definitions

* `Rereads`: A double that is read back from what it is written as.
* `Json.source`: The structure of a written value.
* `Json.reals`, `Json.Faithful`: The doubles of a value, and that they are read
  back.
* `Json.Fits`: A value that may stand at a depth of nesting.

## Theorems

* `Source.readValue_render`: A written value is read in front of any text.
* `Source.parse_render`: The structure of a written text.
-/

namespace Retime

/-- A double that is read back from what it is written as. -/
def Rereads (x : Float) : Prop :=
  (readDocument readAny (documentNumberText x) : Except (DocumentError Float) (Json Float)) =
    .ok (.number (.real x))

/-- The double that a value is. -/
def Json.real? : Json Float → Option Float
  | .number (.real x) => some x
  | _ => none

theorem rereads_iff (x : Float) :
    Rereads x ↔ (readDocument readAny (documentNumberText x) :
      Except (DocumentError Float) (Json Float)).toOption.bind Json.real? = some x := by
  unfold Rereads
  -- Only the result of the reader matters, not what it read.
  generalize (readDocument readAny (documentNumberText x) :
    Except (DocumentError Float) (Json Float)) = r
  constructor
  · rintro rfl
    rfl
  · intro h
    rcases Option.bind_eq_some_iff.mp h with ⟨v, hv, hx⟩
    cases r with
    | error e => cases hv
    | ok w =>
        cases hv
        match v, hx with
        | .number (.real y), hx =>
            cases hx
            rfl

/-- Whether a double is read back can be found out. -/
instance : DecidablePred Rereads :=
  fun x => decidable_of_iff _ (rereads_iff x).symm

namespace Json

mutual

/-- The structure of a written value. -/
def source : Json Float → Source
  | .null => .null
  | .bool b => .bool b
  | .number (.whole n) => .number (.ofInt n)
  | .number (.real x) =>
    if x.isFinite then (Source.parse (documentNumberText x)).1 else .null
  | .string s => .string s
  | .array vs => .array (sourceItems vs)
  | .object ms => .object (sourceMembers ms)

/-- The structure of written items. -/
def sourceItems : List (Json Float) → List Source
  | [] => []
  | v :: vs => source v :: sourceItems vs

/-- The structure of written members. -/
def sourceMembers : List (String × Json Float) → List Source.Member
  | [] => []
  | (k, v) :: ms => (.ok k, source v) :: sourceMembers ms

end

theorem mem_sourceMembers {ms : List (String × Json Float)} {m : String × Json Float}
    (h : m ∈ ms) : (.ok m.1, source m.2) ∈ sourceMembers ms := by
  induction ms with
  | nil => exact nomatch h
  | cons n ms ih =>
      obtain ⟨k, v⟩ := n
      rw [sourceMembers]
      rcases List.mem_cons.mp h with rfl | h
      · exact List.mem_cons_self
      · exact List.mem_cons_of_mem _ (ih h)

mutual

/-- The doubles of a value. -/
def reals {α : Type} : Json α → List α
  | .number (.real x) => [x]
  | .array vs => realsOfItems vs
  | .object ms => realsOfMembers ms
  | .null | .bool _ | .number (.whole _) | .string _ => []

/-- The doubles of items. -/
def realsOfItems {α : Type} : List (Json α) → List α
  | [] => []
  | v :: vs => reals v ++ realsOfItems vs

/-- The doubles of members. -/
def realsOfMembers {α : Type} : List (String × Json α) → List α
  | [] => []
  | (_, v) :: ms => reals v ++ realsOfMembers ms

end

/-- A value whose doubles are all read back, but for those without a form. -/
def Faithful (v : Json Float) : Prop :=
  ∀ x ∈ v.reals, x.isFinite = true → Rereads x

theorem mem_realsOfItems {α : Type} {x : α} {vs : List (Json α)} :
    x ∈ realsOfItems vs ↔ ∃ v ∈ vs, x ∈ v.reals := by
  induction vs with
  | nil => exact ⟨(fun h => nomatch h), fun ⟨_, h, _⟩ => nomatch h⟩
  | cons v vs ih => rw [realsOfItems, List.mem_append, ih, List.exists_mem_cons_iff]

theorem mem_realsOfMembers {α : Type} {x : α} {ms : List (String × Json α)} :
    x ∈ realsOfMembers ms ↔ ∃ m ∈ ms, x ∈ m.2.reals := by
  induction ms with
  | nil => exact ⟨(fun h => nomatch h), fun ⟨_, h, _⟩ => nomatch h⟩
  | cons m ms ih => rw [realsOfMembers, List.mem_append, ih, List.exists_mem_cons_iff]

theorem Faithful.real {x : Float} (h : (number (.real x)).Faithful) (hx : x.isFinite = true) :
    Rereads x := by
  refine h x ?_ hx
  rw [reals]
  exact List.mem_singleton_self x

theorem Faithful.item {vs : List (Json Float)} (h : (array vs).Faithful) {v : Json Float}
    (hv : v ∈ vs) : v.Faithful := by
  intro x hx
  refine h x ?_
  rw [reals]
  exact mem_realsOfItems.mpr ⟨v, hv, hx⟩

theorem Faithful.member {ms : List (String × Json Float)} (h : (object ms).Faithful)
    {m : String × Json Float} (hm : m ∈ ms) : m.2.Faithful := by
  intro x hx
  refine h x ?_
  rw [reals]
  exact mem_realsOfMembers.mpr ⟨m, hm, hx⟩

/-- The whole numbers of up to 64 bits. -/
def InRange (n : Int) : Prop :=
  -0x8000000000000000 ≤ n ∧ n < UInt64.size

/-- A value that may stand at a depth of nesting, as it is not nested too deep,
    and whose whole numbers have a property. -/
inductive Fits {α : Type} (W : Int → Prop) : Nat → Json α → Prop
  | null {depth : Nat} : Fits W depth .null
  | bool {depth : Nat} {b : Bool} : Fits W depth (.bool b)
  | whole {depth : Nat} {n : Int} : W n → Fits W depth (.number (.whole n))
  | real {depth : Nat} {x : α} : Fits W depth (.number (.real x))
  | string {depth : Nat} {s : String} : Fits W depth (.string s)
  | array {depth : Nat} {vs : List (Json α)} :
      depth < Source.maxDepth → (∀ v ∈ vs, Fits W (depth + 1) v) → Fits W depth (.array vs)
  | object {depth : Nat} {ms : List (String × Json α)} :
      depth < Source.maxDepth → (∀ m ∈ ms, Fits W (depth + 1) m.2) → Fits W depth (.object ms)

theorem Fits.imp {α : Type} {W W' : Int → Prop} (hW : ∀ n, W n → W' n) {depth : Nat} {v : Json α}
    (h : v.Fits W depth) : v.Fits W' depth := by
  induction h with
  | null => exact .null
  | bool => exact .bool
  | whole hn => exact .whole (hW _ hn)
  | real => exact .real
  | string => exact .string
  | array hdepth _ ih => exact .array hdepth ih
  | object hdepth _ ih => exact .object hdepth ih

/-- A style that puts nothing but blanks between the tokens. -/
structure Style.Blank (style : Style) : Prop where
  line : ∀ depth, Source.skip (style.line depth).toList = []
  colon : ∃ bs, style.colon.toList = ':' :: bs ∧ Source.skip bs = []

end Json

namespace Source

/-! ### Blanks -/

theorem skip_append {bs : List Char} (h : skip bs = []) (cs : List Char) :
    skip (bs ++ cs) = skip cs :=
  List.dropWhile_append_of_pos (List.dropWhile_eq_nil_iff.mp h)

theorem skip_skip (cs : List Char) : skip (skip cs) = skip cs := by
  unfold skip
  induction cs with
  | nil => rfl
  | cons c cs ih =>
      rw [List.dropWhile_cons]
      split
      · exact ih
      · next h => rw [List.dropWhile_cons, if_neg h]

theorem skip_append_cons {cs : List Char} {c : Char} {tail : List Char} (h : skip cs = c :: tail)
    (rest : List Char) : skip (cs ++ rest) = c :: (tail ++ rest) := by
  induction cs with
  | nil => cases h
  | cons d cs ih =>
      unfold skip at h ⊢
      rw [List.cons_append, List.dropWhile_cons]
      rw [List.dropWhile_cons] at h
      -- A blank is dropped and the rest is shorter. The
      -- first other character stops the skipping.
      split at h
      · next hd =>
          rw [if_pos hd]
          exact ih h
      · next hd =>
          rw [if_neg hd]
          cases h
          rfl

/-- A reader of values skips the blanks in front. -/
theorem readValue_skip {cs ds : List Char} (h : skip cs = skip ds) (fuel depth : Nat) :
    readValue fuel depth cs = readValue fuel depth ds := by
  cases fuel with
  | zero => rw [readValue, readValue]
  | succ fuel => rw [readValue, readValue, h]

theorem readItems_skip {cs ds : List Char} (h : skip cs = skip ds) (fuel depth : Nat) :
    readItems fuel depth cs = readItems fuel depth ds := by
  cases fuel with
  | zero => rw [readItems, readItems]
  | succ fuel => rw [readItems, readItems, readValue_skip h]

theorem readMembers_skip {cs ds : List Char} (h : skip cs = skip ds) (fuel depth : Nat) :
    readMembers fuel depth cs = readMembers fuel depth ds := by
  cases fuel with
  | zero => rw [readMembers, readMembers]
  | succ fuel => rw [readMembers, readMembers, h]

/-! ### Numbers -/

theorem token_eq_ok {place : TextError → Break} {r : Except TextError (Source × List Char)}
    {v : Source} {tail : List Char} (h : token place r = (v, .ok tail)) : r = .ok (v, tail) := by
  match r, h with
  | .ok _, h => cases h; rfl
  | .error _, h => cases h

/-- Whether a structure is a number. -/
def isNumber : Source → Bool
  | .number _ => true
  | _ => false

theorem contained_ne_number {depth : Nat} {v : Source} {rest : Rest} {s : Spelling}
    (hv : v ≠ .number s) : (contained depth v rest).1 ≠ .number s := by
  unfold contained
  split
  · exact hv
  · exact nofun

theorem readWord_ne_number {v : Source} {s : Spelling} (hv : v ≠ .number s)
    {word cs tail : List Char} : readWord v word cs ≠ .ok (.number s, tail) := by
  -- A word that is read to its end gives the value it was asked for.
  induction word generalizing cs with
  | nil =>
      intro h
      cases h
      exact hv rfl
  | cons w word ih =>
      intro h
      cases cs with
      | nil => cases h
      | cons c cs =>
          rw [readWord] at h
          split at h
          · exact ih h
          · cases h

theorem readValue_minus {cs cs' : List Char} (h : skip cs = '-' :: cs') (fuel depth : Nat) :
    readValue (fuel + 1) depth cs = token .ofNumber (readNumber true cs') := by
  rw [readValue, h]
  rfl

theorem ne_of_isDigit {c d : Char} (hc : c.isDigit = true) (hd : d.isDigit = false) : c ≠ d := by
  rintro rfl
  rw [hc] at hd
  cases hd

theorem skip_digit {c : Char} (hc : c.isDigit = true) (cs : List Char) :
    skip (c :: cs) = c :: cs := by
  refine List.dropWhile_cons_of_neg ?_
  simp only [Bool.or_eq_true, decide_eq_true_iff, not_or]
  exact ⟨⟨⟨ne_of_isDigit hc rfl, ne_of_isDigit hc rfl⟩, ne_of_isDigit hc rfl⟩,
    ne_of_isDigit hc rfl⟩

theorem readValue_digit {c : Char} {cs cs' : List Char} (h : skip cs = c :: cs')
    (hc : c.isDigit = true) (fuel depth : Nat) :
    readValue (fuel + 1) depth cs = token .ofNumber (readNumber false (c :: cs')) := by
  rw [readValue, h]
  split
  -- No other value begins with a digit.
  · contradiction
  · next heq => exact absurd (List.cons.inj heq).1 (ne_of_isDigit hc rfl)
  · next heq => exact absurd (List.cons.inj heq).1 (ne_of_isDigit hc rfl)
  · next heq => exact absurd (List.cons.inj heq).1 (ne_of_isDigit hc rfl)
  · next heq => exact absurd (List.cons.inj heq).1 (ne_of_isDigit hc rfl)
  · next heq => exact absurd (List.cons.inj heq).1 (ne_of_isDigit hc rfl)
  · next heq => exact absurd (List.cons.inj heq).1 (ne_of_isDigit hc rfl)
  · next heq => exact absurd (List.cons.inj heq).1 (ne_of_isDigit hc rfl)
  · next heq =>
      rcases List.cons.inj heq with ⟨rfl, rfl⟩
      rw [if_pos hc]

/-- What is read as a number starts with a sign or with a digit. -/
theorem readValue_eq_number {fuel depth : Nat} {cs tail : List Char} {s : Spelling}
    (h : readValue fuel depth cs = (.number s, .ok tail)) :
    (∃ cs', skip cs = '-' :: cs' ∧ readNumber true cs' = .ok (.number s, tail)) ∨
    ∃ c cs', skip cs = c :: cs' ∧ c.isDigit = true ∧
      readNumber false (c :: cs') = .ok (.number s, tail) := by
  -- A number is read behind a minus or from a digit on, and nowhere else.
  have hother : ∀ {v : Source}, v.isNumber = false → v ≠ .number s := by
    rintro _ hv rfl
    cases hv
  cases fuel with
  | zero => rw [readValue] at h; cases h
  | succ fuel =>
      rw [readValue] at h
      split at h
      · cases h
      · split at h
        · exact absurd (congrArg Prod.fst h) (contained_ne_number (hother rfl))
        · exact absurd (congrArg Prod.fst h) (contained_ne_number (hother rfl))
      · split at h
        · exact absurd (congrArg Prod.fst h) (contained_ne_number (hother rfl))
        · exact absurd (congrArg Prod.fst h) (contained_ne_number (hother rfl))
      · next cs' _ =>
          unfold stringValue at h
          split at h <;> cases h
      · exact absurd (token_eq_ok h) (readWord_ne_number (hother rfl))
      · exact absurd (token_eq_ok h) (readWord_ne_number (hother rfl))
      · exact absurd (token_eq_ok h) (readWord_ne_number (hother rfl))
      · next cs' hskip => exact Or.inl ⟨cs', hskip, token_eq_ok h⟩
      · next c cs' _ _ _ _ _ _ _ hskip =>
          split at h
          · next hc => exact Or.inr ⟨c, cs', hskip, hc, token_eq_ok h⟩
          · cases h

/-- What is read as a number is one in front of any text that it does not go on
    into, wherever it stands. -/
theorem readValue_number_append {fuel depth : Nat} {cs tail : List Char} {s : Spelling}
    (h : readValue fuel depth cs = (.number s, .ok tail)) {rest : List Char} (hrest : Ends rest)
    (fuel' depth' : Nat) :
    readValue (fuel' + 1) depth' (cs ++ rest) = (.number s, .ok (tail ++ rest)) := by
  rcases readValue_eq_number h with ⟨cs', hskip, hread⟩ | ⟨c, cs', hskip, hc, hread⟩
  · rw [readValue_minus (skip_append_cons hskip rest), readNumber_append hrest hread]
    rfl
  · rw [readValue_digit (skip_append_cons hskip rest) hc, ← List.cons_append,
      readNumber_append hrest hread]
    rfl

theorem parse_eq_none {text : String} {v : Source} (h : parse text = (v, none)) :
    ∃ tail, readValue (2 * text.toList.length + 1) 0 text.toList = (v, .ok tail) ∧
      skip tail = [] := by
  unfold parse at h
  dsimp only at h
  split at h
  · cases h
  · next u tail heq =>
      rcases Prod.mk.inj h with ⟨rfl, hend⟩
      refine ⟨tail, heq, ?_⟩
      -- Text that is left over would have been the flaw.
      by_cases hempty : (skip tail).isEmpty = true
      · exact List.isEmpty_iff.mp hempty
      · rw [if_neg hempty] at hend
        cases hend

theorem value_eq_number {v : Source} {n : Number Float} (h : v.value = .ok (.number n)) :
    ∃ s, v = .number s ∧ s.number? = some n := by
  match v, h with
  | .number s, h =>
      rw [value] at h
      -- A spelling has a value only if it is that of a number.
      split at h
      · next m hm =>
          cases h
          exact ⟨s, rfl, hm⟩
      · cases h
  | .array items, h =>
      rw [value] at h
      rcases bind_ok_iff.mp h with ⟨_, _, h⟩
      cases h
  | .object members, h =>
      rw [value] at h
      rcases bind_ok_iff.mp h with ⟨_, _, h⟩
      cases h
  | .null, h | .bool _, h | .string _, h | .unreadable _, h | .broken _, h =>
      rw [value] at h
      cases h

end Source

/-- A double that is read back has a spelling, which denotes it. -/
theorem Rereads.spelling {x : Float} (h : Rereads x) :
    ∃ s tail, Source.parse (documentNumberText x) = (.number s, none) ∧
      Source.readValue (2 * (documentNumberText x).toList.length + 1) 0
        (documentNumberText x).toList = (.number s, .ok tail) ∧
      Source.skip tail = [] ∧ s.number? = some (.real x) := by
  unfold Rereads readDocument at h
  generalize hparse : Source.parse (documentNumberText x) = parsed at h
  rcases parsed with ⟨v, flaw⟩
  rcases bind_ok_iff.mp h with ⟨w, hvalue, h⟩
  cases flaw with
  | some cause => cases h
  | none =>
      cases h
      -- The text has no break, so the number is the value of all of it.
      have hv : v.value = .ok (.number (.real x)) := by
        unfold readAny evaluated at hvalue
        split at hvalue
        · next w' hw =>
            cases hvalue
            exact hw
        · cases hvalue
      rcases Source.value_eq_number hv with ⟨s, rfl, hs⟩
      rcases Source.parse_eq_none hparse with ⟨tail, hread, htail⟩
      exact ⟨s, tail, rfl, hread, htail, hs⟩

namespace Source

open Json

variable {style : Style} {W : Int → Prop}

/-! ### Values -/

theorem toList_quote (s : String) :
    (quote s).toList = '"' :: (s.toList.flatMap escape ++ ['"']) :=
  String.toList_ofList

/-- The constants are words. -/
theorem readValue_word (fuel depth : Nat) (rest : List Char) :
    readValue (fuel + 1) depth ("null".toList ++ rest) = (.null, .ok rest) ∧
    readValue (fuel + 1) depth ("true".toList ++ rest) = (.bool true, .ok rest) ∧
    readValue (fuel + 1) depth ("false".toList ++ rest) = (.bool false, .ok rest) := by
  refine ⟨?_, ?_, ?_⟩
  · have hchars : "null".toList = ['n', 'u', 'l', 'l'] := rfl
    rw [readValue, hchars]
    rfl
  · have hchars : "true".toList = ['t', 'r', 'u', 'e'] := rfl
    rw [readValue, hchars]
    rfl
  · have hchars : "false".toList = ['f', 'a', 'l', 's', 'e'] := rfl
    rw [readValue, hchars]
    rfl

/-- A whole number is read as its spelling. -/
theorem readValue_intText (fuel depth : Nat) (n : Int) {rest : List Char} (h : Ends rest) :
    readValue (fuel + 1) depth ((Text.intText n).toList ++ rest) =
      (.number (.ofInt n), .ok rest) := by
  have hdigits : ∀ negative k, readNumber negative (Text.digits k ++ rest) =
      .ok (.number ⟨negative, Text.digits k, none, none⟩, rest) :=
    fun negative k => readNumber_append h (readNumber_digits negative k)
  -- The sign is one character in front of the digits, and is looked at before them.
  cases n with
  | negSucc n =>
      have hchars : (Text.intText (.negSucc n)).toList = '-' :: Text.digits (n + 1) := by
        rw [Text.intText, String.toList_append]
        exact congrArg ('-' :: ·) String.toList_ofList
      have hspelling : Spelling.ofInt (.negSucc n) = ⟨true, Text.digits (n + 1), none, none⟩ := by
        rw [Spelling.ofInt, decide_eq_true (Int.negSucc_lt_zero n)]
        rfl
      rw [hchars, List.cons_append, readValue_minus rfl, hdigits, hspelling]
      rfl
  | ofNat n =>
      have hchars : (Text.intText (.ofNat n)).toList = Text.digits n := String.toList_ofList
      have hspelling : Spelling.ofInt (.ofNat n) = ⟨false, Text.digits n, none, none⟩ := by
        have hsign : decide (Int.ofNat n < 0) = false :=
          decide_eq_false (Int.not_lt.mpr (Int.natCast_nonneg n))
        rw [Spelling.ofInt, hsign]
        rfl
      rcases hcs : Text.digits n with _ | ⟨c, cs⟩
      · exact absurd hcs Nat.toDigits_ne_nil
      · have hc : c.isDigit = true := Text.isDigit_of_mem_digits (hcs ▸ List.mem_cons_self)
        have hskip : skip (Text.digits n ++ rest) = c :: (cs ++ rest) := by
          rw [hcs]
          exact skip_digit hc _
        rw [hchars, readValue_digit hskip hc, ← List.cons_append, ← hcs, hdigits, hspelling]
        rfl

/-- A double is read as its spelling, or as null if it is not finite. -/
theorem readValue_real (fuel depth : Nat) {x : Float} (hx : x.isFinite = true → Rereads x)
    {rest : List Char} (h : Ends rest) :
    ∃ tail, skip tail = [] ∧
      readValue (fuel + 1) depth ((numberForm (.real x)).toList ++ rest) =
        (source (.number (.real x)), .ok (tail ++ rest)) := by
  -- The text of a finite double is that of its spelling, up to blanks.
  by_cases hfinite : x.isFinite = true
  · rcases (hx hfinite).spelling with ⟨s, tail, hparse, hread, htail, -⟩
    have hform : numberForm (.real x) = documentNumberText x := if_pos hfinite
    have hsource : source (.number (.real x)) = .number s := by
      rw [source, if_pos hfinite, hparse]
    exact ⟨tail, htail, by rw [hform, hsource, readValue_number_append hread h]⟩
  · have hform : numberForm (.real x) = "null" := if_neg hfinite
    have hsource : source (.number (.real x)) = .null := by rw [source, if_neg hfinite]
    exact ⟨[], rfl, by rw [hform, hsource, (readValue_word fuel depth rest).1]; rfl⟩

/-- A value that is read in front of any text, if there is fuel for its length. -/
def ReadIn (style : Style) (depth : Nat) (v : Json Float) : Prop :=
  ∀ (fuel : Nat) {rest : List Char}, 2 * (render style depth v).toList.length ≤ fuel + 1 →
    Ends rest → ∃ tail, skip tail = [] ∧
      readValue fuel depth ((render style depth v).toList ++ rest) = (v.source, .ok (tail ++ rest))

theorem ends_line (hs : style.Blank) (depth : Nat) {c : Char} (cs : List Char)
    (h : c.isDigit = false ∧ c ≠ '.' ∧ c ≠ 'e' ∧ c ≠ 'E') :
    Ends ((style.line depth).toList ++ c :: cs) := by
  have hline := List.dropWhile_eq_nil_iff.mp (hs.line depth)
  cases hchars : (style.line depth).toList with
  | nil => exact ends_cons h
  | cons d ds =>
      have hd := hline d (hchars ▸ List.mem_cons_self)
      simp only [Bool.or_eq_true, decide_eq_true_iff] at hd
      refine ends_cons ?_
      rcases hd with ((rfl | rfl) | rfl) | rfl
      all_goals decide

theorem ReadIn.length_pos {depth : Nat} {v : Json Float} (h : ReadIn style depth v) :
    0 < (render style depth v).toList.length := by
  refine Nat.pos_of_ne_zero fun hzero => ?_
  rcases h 0 (by omega) ends_nil with ⟨tail, -, hread⟩
  rw [readValue] at hread
  have hrest := congrArg Prod.snd hread
  cases hrest

/-- A value behind blanks, with what follows it. -/
theorem ReadIn.behind {depth : Nat} {v : Json Float} (h : ReadIn style depth v) {bs : List Char}
    (hbs : skip bs = []) (fuel : Nat) {rest : List Char}
    (hfuel : 2 * (render style depth v).toList.length ≤ fuel + 1) (hrest : Ends rest) :
    ∃ tail, skip tail = skip rest ∧
      readValue fuel depth (bs ++ ((render style depth v).toList ++ rest)) =
        (v.source, .ok tail) := by
  rcases h fuel hfuel hrest with ⟨tail, htail, hread⟩
  refine ⟨tail ++ rest, skip_append htail rest, ?_⟩
  rw [readValue_skip (skip_append hbs _), hread]

theorem ends_comma (cs : List Char) : Ends (',' :: cs) :=
  ends_cons (by decide)

theorem toList_renderItems_one (style : Style) (depth : Nat) (v : Json Float) :
    (renderItems style depth [v]).toList =
      (style.line depth).toList ++ (render style depth v).toList :=
  String.toList_append

theorem toList_renderItems_cons (style : Style) (depth : Nat) (v w : Json Float)
    (vs : List (Json Float)) :
    (renderItems style depth (v :: w :: vs)).toList =
      (style.line depth).toList ++ ((render style depth v).toList ++
        ',' :: (renderItems style depth (w :: vs)).toList) := by
  rw [renderItems, String.toList_append, String.toList_append, String.toList_append,
    List.append_assoc, List.append_assoc]
  · rfl
  · exact nofun

/-- Items that are read one by one are read as a row, up to the bracket. -/
theorem readItems_render (hs : style.Blank) {depth : Nat} (outer : Nat) {vs : List (Json Float)}
    (hvs : ∀ v ∈ vs, ReadIn style depth v) (hne : vs ≠ []) (fuel : Nat) (rest : List Char)
    (hfuel : 2 * (renderItems style depth vs).toList.length ≤ fuel) :
    readItems fuel depth
      ((renderItems style depth vs).toList ++ ((style.line outer).toList ++ ']' :: rest)) =
      (sourceItems vs, .ok rest) := by
  -- An item takes one unit of fuel, and a text of one character or more brings two.
  induction vs generalizing fuel with
  | nil => exact absurd rfl hne
  | cons v vs ih =>
      rcases List.forall_mem_cons.mp hvs with ⟨hv, hvs⟩
      have hpos := hv.length_pos
      cases vs with
      | nil =>
          rw [toList_renderItems_one] at hfuel ⊢
          rw [List.length_append] at hfuel
          obtain ⟨fuel, rfl⟩ : ∃ n, fuel = n + 1 := ⟨fuel - 1, by omega⟩
          rcases hv.behind (hs.line depth) fuel (by omega)
            (ends_line hs outer (c := ']') rest (by decide)) with ⟨tail, htail, hread⟩
          -- Behind the last item there are blanks and the bracket.
          rw [skip_append (hs.line outer)] at htail
          rw [readItems, List.append_assoc, hread]
          dsimp only
          rw [htail]
          rfl
      | cons w vs =>
          rw [toList_renderItems_cons] at hfuel ⊢
          rw [List.length_append, List.length_append, List.length_cons] at hfuel
          obtain ⟨fuel, rfl⟩ : ∃ n, fuel = n + 1 := ⟨fuel - 1, by omega⟩
          -- Behind any other there is a comma, and the items go on.
          have hmore := ih hvs (List.cons_ne_nil _ _) fuel (by omega)
          rcases hv.behind (hs.line depth) fuel (by omega) (ends_comma _) with
            ⟨tail, htail, hread⟩
          rw [readItems, List.append_assoc, List.append_assoc, List.cons_append, hread]
          dsimp only
          rw [htail]
          change (v.source :: (readItems _ _ _).1, (readItems _ _ _).2) = _
          rw [hmore]
          rfl

/-- A key with its colon, as it is written. -/
def keyChars (style : Style) (k : String) : List Char :=
  '"' :: (k.toList.flatMap escape ++ '"' :: style.colon.toList)

theorem toList_renderMembers_one (style : Style) (depth : Nat) (k : String) (v : Json Float) :
    (renderMembers style depth [(k, v)]).toList =
      (style.line depth).toList ++ (keyChars style k ++ (render style depth v).toList) := by
  rw [renderMembers, String.toList_append, String.toList_append, String.toList_append,
    toList_quote]
  simp only [keyChars, List.append_assoc, List.cons_append, List.nil_append]

theorem toList_renderMembers_cons (style : Style) (depth : Nat) (k : String) (v : Json Float)
    (m : String × Json Float) (ms : List (String × Json Float)) :
    (renderMembers style depth ((k, v) :: m :: ms)).toList =
      (style.line depth).toList ++ (keyChars style k ++ ((render style depth v).toList ++
        ',' :: (renderMembers style depth (m :: ms)).toList)) := by
  have hcomma : ",".toList = [','] := rfl
  rw [renderMembers]
  · simp only [String.toList_append, toList_quote, hcomma, keyChars, List.append_assoc,
      List.cons_append, List.nil_append]
  · exact nofun

/-- A written member is the last one in front of a brace, and not in front of a
    comma. -/
theorem readMembers_key (hs : style.Blank) {depth : Nat} (k : String) {v : Json Float}
    (hv : ReadIn style depth v) (fuel : Nat) {rest : List Char}
    (hfuel : 2 * (render style depth v).toList.length ≤ fuel + 1) (hrest : Ends rest) :
    (∀ cs, skip rest = '}' :: cs →
      readMembers (fuel + 1) depth ((style.line depth).toList ++ (keyChars style k ++
        ((render style depth v).toList ++ rest))) = ([(.ok k, v.source)], .ok cs)) ∧
    (∀ cs, skip rest = ',' :: cs →
      readMembers (fuel + 1) depth ((style.line depth).toList ++ (keyChars style k ++
        ((render style depth v).toList ++ rest))) =
        ((.ok k, v.source) :: (readMembers fuel depth cs).1, (readMembers fuel depth cs).2)) := by
  rcases hs.colon with ⟨bs, hcolon, hbs⟩
  rcases hv.behind hbs fuel hfuel hrest with ⟨tail, htail, hread⟩
  -- The blanks and the key are read, up to the colon and the blanks behind it.
  have hkey : skip ((style.line depth).toList ++ (keyChars style k ++
      ((render style depth v).toList ++ rest))) =
      '"' :: (k.toList.flatMap escape ++ '"' ::
        ':' :: (bs ++ ((render style depth v).toList ++ rest))) := by
    rw [skip_append (hs.line depth), keyChars, hcolon]
    simp only [List.append_assoc, List.cons_append]
    rfl
  have hskip : ∀ cs, skip (':' :: cs) = ':' :: cs := fun _ => rfl
  constructor
  · intro cs hcs
    rw [readMembers]
    simp only [hkey, readString_quoted, hskip, hread, htail, hcs]
  · intro cs hcs
    rw [readMembers]
    simp only [hkey, readString_quoted, hskip, hread, htail, hcs]

/-- Members whose values are read one by one are read as a row, up to the
    brace. -/
theorem readMembers_render (hs : style.Blank) {depth : Nat} (outer : Nat)
    {ms : List (String × Json Float)} (hms : ∀ m ∈ ms, ReadIn style depth m.2) (hne : ms ≠ [])
    (fuel : Nat) (rest : List Char)
    (hfuel : 2 * (renderMembers style depth ms).toList.length ≤ fuel) :
    readMembers fuel depth
      ((renderMembers style depth ms).toList ++ ((style.line outer).toList ++ '}' :: rest)) =
      (sourceMembers ms, .ok rest) := by
  induction ms generalizing fuel with
  | nil => exact absurd rfl hne
  | cons m ms ih =>
      obtain ⟨k, v⟩ := m
      rcases List.forall_mem_cons.mp hms with ⟨hv, hms⟩
      have hv : ReadIn style depth v := hv
      have hpos := hv.length_pos
      -- The last member is followed by the brace and any other by a comma, which the
      -- reader looks for.
      cases ms with
      | nil =>
          rw [toList_renderMembers_one] at hfuel ⊢
          rw [List.length_append, List.length_append] at hfuel
          obtain ⟨fuel, rfl⟩ : ∃ n, fuel = n + 1 := ⟨fuel - 1, by omega⟩
          rw [List.append_assoc, List.append_assoc]
          exact (readMembers_key hs k hv fuel (by omega)
            (ends_line hs outer (c := '}') rest (by decide))).1 rest
              (skip_append (hs.line outer) _)
      | cons m ms =>
          rw [toList_renderMembers_cons] at hfuel ⊢
          rw [List.length_append, List.length_append, List.length_append,
            List.length_cons] at hfuel
          obtain ⟨fuel, rfl⟩ : ∃ n, fuel = n + 1 := ⟨fuel - 1, by omega⟩
          have hmore := ih hms (List.cons_ne_nil _ _) fuel (by omega)
          rw [List.append_assoc, List.append_assoc, List.append_assoc, List.cons_append,
            (readMembers_key hs k hv fuel (by omega) (ends_comma _)).2 _ rfl, hmore]
          rfl

/-- What is read as items does not start with the bracket. -/
theorem skip_ne_bracket {fuel depth : Nat} {cs rest : List Char} {vs : List Source}
    (h : readItems fuel depth cs = (vs, .ok rest)) (tail : List Char) :
    skip cs ≠ ']' :: tail := by
  intro hskip
  cases fuel with
  | zero =>
      rw [readItems] at h
      cases h
  | succ fuel =>
      -- No value begins with the bracket, so not one item would have been read.
      have hread : ∃ u e, readValue fuel depth cs = (u, .error e) := by
        cases fuel with
        | zero =>
            rw [readValue]
            exact ⟨_, _, rfl⟩
        | succ fuel =>
            rw [readValue, hskip]
            exact ⟨_, _, rfl⟩
      rcases hread with ⟨u, e, hread⟩
      rw [readItems, hread] at h
      cases h

/-- What is read as members does not start with the brace. -/
theorem skip_ne_brace {fuel depth : Nat} {cs rest : List Char} {ms : List Member}
    (h : readMembers fuel depth cs = (ms, .ok rest)) (tail : List Char) :
    skip cs ≠ '}' :: tail := by
  intro hskip
  cases fuel with
  | zero =>
      rw [readMembers] at h
      cases h
  | succ fuel =>
      rw [readMembers, hskip] at h
      cases h

theorem readValue_bracket {fuel depth : Nat} {cs rest : List Char} {vs : List Source}
    (h : readItems fuel (depth + 1) cs = (vs, .ok rest)) (hdepth : depth < maxDepth) :
    readValue (fuel + 1) depth ('[' :: cs) = (.array vs, .ok rest) := by
  have hskip : skip ('[' :: cs) = '[' :: cs := rfl
  rw [readValue]
  simp only [hskip]
  split
  · next tail hcs => exact absurd hcs (skip_ne_bracket h tail)
  · rw [readItems_skip (skip_skip cs), h]
    exact congrArg (·, _) (if_pos hdepth)

theorem readValue_brace {fuel depth : Nat} {cs rest : List Char} {ms : List Member}
    (h : readMembers fuel (depth + 1) cs = (ms, .ok rest)) (hdepth : depth < maxDepth) :
    readValue (fuel + 1) depth ('{' :: cs) = (.object ms, .ok rest) := by
  have hskip : skip ('{' :: cs) = '{' :: cs := rfl
  rw [readValue]
  simp only [hskip]
  split
  · next tail hcs => exact absurd hcs (skip_ne_brace h tail)
  · rw [readMembers_skip (skip_skip cs), h]
    exact congrArg (·, _) (if_pos hdepth)

theorem toList_render_array (style : Style) (depth : Nat) (v : Json Float)
    (vs : List (Json Float)) (rest : List Char) :
    (render style depth (.array (v :: vs))).toList ++ rest =
      '[' :: ((renderItems style (depth + 1) (v :: vs)).toList ++
        ((style.line depth).toList ++ ']' :: rest)) := by
  have hopen : "[".toList = ['['] := rfl
  have hclose : "]".toList = [']'] := rfl
  rw [render]
  simp only [String.toList_append, hopen, hclose, List.append_assoc, List.cons_append,
    List.nil_append]

theorem toList_render_object (style : Style) (depth : Nat) (m : String × Json Float)
    (ms : List (String × Json Float)) (rest : List Char) :
    (render style depth (.object (m :: ms))).toList ++ rest =
      '{' :: ((renderMembers style (depth + 1) (m :: ms)).toList ++
        ((style.line depth).toList ++ '}' :: rest)) := by
  have hopen : "\x7b".toList = ['{'] := rfl
  have hclose : "\x7d".toList = ['}'] := rfl
  rw [render]
  simp only [String.toList_append, hopen, hclose, List.append_assoc, List.cons_append,
    List.nil_append]

/-- A value is read with any fuel for its length, if it is with any fuel at
    all, as there is nothing that an empty text is read as. -/
theorem ReadIn.of_succ {depth : Nat} {v : Json Float}
    (h : ∀ (fuel : Nat) {rest : List Char}, Ends rest → ∃ tail, skip tail = [] ∧
      readValue (fuel + 1) depth ((render style depth v).toList ++ rest) =
        (v.source, .ok (tail ++ rest))) : ReadIn style depth v := by
  intro fuel rest hfuel hrest
  cases fuel with
  | succ fuel => exact h fuel hrest
  | zero =>
      have hempty : (render style depth v).toList = [] := List.eq_nil_of_length_eq_zero (by omega)
      rcases h 0 ends_nil with ⟨tail, -, hread⟩
      rw [hempty, readValue] at hread
      have hrest := congrArg Prod.snd hread
      cases hrest

/-- A written value is read in front of any text. -/
theorem readValue_render (hs : style.Blank) {depth : Nat} {v : Json Float} (hv : v.Fits W depth)
    (hreals : v.Faithful) : ReadIn style depth v := by
  -- One case for each way a value fits, so that rows have their elements to go by.
  induction hv with
  | null =>
      refine ReadIn.of_succ fun fuel rest _ => ⟨[], rfl, ?_⟩
      rw [render]
      exact (readValue_word fuel _ rest).1
  | @bool _ b =>
      refine ReadIn.of_succ fun fuel rest _ => ⟨[], rfl, ?_⟩
      rw [render]
      cases b with
      | true => exact (readValue_word fuel _ rest).2.1
      | false => exact (readValue_word fuel _ rest).2.2
  | whole _ =>
      refine ReadIn.of_succ fun fuel rest hrest => ⟨[], rfl, ?_⟩
      rw [render]
      exact readValue_intText fuel _ _ hrest
  | @real _ x =>
      refine ReadIn.of_succ fun fuel rest hrest => ?_
      rw [render]
      exact readValue_real fuel _ hreals.real hrest
  | @string _ t =>
      refine ReadIn.of_succ fun fuel rest _ => ⟨[], rfl, ?_⟩
      have hskip : ∀ cs, skip ('"' :: cs) = '"' :: cs := fun _ => rfl
      rw [render, toList_quote, readValue]
      simp only [List.cons_append, List.append_assoc, List.nil_append, hskip, readString_quoted]
      rfl
  | @array depth vs hdepth _ ih =>
      cases vs with
      | nil =>
          refine ReadIn.of_succ fun fuel rest _ => ⟨[], rfl, ?_⟩
          rw [render]
          exact congrArg (·, _) (if_pos hdepth)
      | cons v vs =>
          intro fuel rest hfuel _
          have hchars := toList_render_array style depth v vs
          have hlength := congrArg List.length (hchars [])
          simp only [List.length_append, List.length_cons, List.length_nil] at hlength
          obtain ⟨fuel, rfl⟩ : ∃ n, fuel = n + 1 := ⟨fuel - 1, by omega⟩
          refine ⟨[], rfl, ?_⟩
          have hitems := readItems_render hs depth
            (fun w hw => ih w hw (hreals.item hw)) (List.cons_ne_nil v vs) fuel rest
            (by omega)
          rw [hchars, readValue_bracket hitems hdepth]
          rfl
  | @object depth ms hdepth _ ih =>
      cases ms with
      | nil =>
          refine ReadIn.of_succ fun fuel rest _ => ⟨[], rfl, ?_⟩
          rw [render]
          exact congrArg (·, _) (if_pos hdepth)
      | cons m ms =>
          intro fuel rest hfuel _
          have hchars := toList_render_object style depth m ms
          have hlength := congrArg List.length (hchars [])
          simp only [List.length_append, List.length_cons, List.length_nil] at hlength
          obtain ⟨fuel, rfl⟩ : ∃ n, fuel = n + 1 := ⟨fuel - 1, by omega⟩
          refine ⟨[], rfl, ?_⟩
          have hmembers := readMembers_render hs depth
            (fun n hn => ih n hn (hreals.member hn)) (List.cons_ne_nil m ms) fuel rest
            (by omega)
          rw [hchars, readValue_brace hmembers hdepth]
          rfl

/-- The structure of a written text is that of the value. -/
theorem parse_render (hs : style.Blank) {v : Json Float} (hv : v.Fits W 0) (hreals : v.Faithful) :
    parse (render style 0 v) = (v.source, none) := by
  rcases readValue_render hs hv hreals (2 * (render style 0 v).toList.length + 1) (by omega)
    ends_nil with ⟨tail, htail, hread⟩
  rw [List.append_nil, List.append_nil] at hread
  unfold parse
  dsimp only
  rw [hread]
  dsimp only
  rw [htail]
  rfl

end Source

/-- What documents put between the tokens is blanks. -/
theorem Json.blank_pretty :
    (⟨fun depth => String.ofList ('\n' :: List.replicate (2 * depth) ' '), ": "⟩ :
      Json.Style).Blank where
  line depth := by
    rw [String.toList_ofList]
    refine List.dropWhile_eq_nil_iff.mpr fun c hc => ?_
    rcases List.mem_cons.mp hc with rfl | hc
    · rfl
    · rw [List.eq_of_mem_replicate hc]
      rfl
  colon := ⟨[' '], rfl, rfl⟩

/-- The structure of a document is that of the value it was written from. -/
theorem Source.parse_pretty {W : Int → Prop} {v : Json Float} (hv : v.Fits W 0)
    (hreals : v.Faithful) :
    Source.parse v.pretty = (v.source, none) :=
  Source.parse_render Json.blank_pretty hv hreals

end Retime
