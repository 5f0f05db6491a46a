import Retime.Proofs.FiniteNumbers
import Retime.Proofs.Outcome
import Retime.Proofs.WrittenValues

/-!
# Kept Values

What a document keeps without interpreting it, and that it comes back.

A value that was read is not any value. Its whole numbers have up to 64 bits,
its doubles are finite, and its objects are maps: `mapOf` has ordered them and
has dropped all but the last member of a key. On values of this kind the
reader undoes the writer, as ordering what is in order changes nothing.

A container that is nested too deep has no value, so what has a value at a
depth fits into that depth. It is written at the depth it was read at.

## Main definitions

* `Json.Sorted`: Members that are ordered by their keys.
* `Json.Kept`: A value that a document keeps.
* `Source.Fits`: A structure that is nested no deeper than is looked at.

## Theorems

* `Json.sorted_mapOf`, `Json.mapOf_of_sorted`: The map of a list is ordered,
  and that of an ordered list is the list.
* `Source.fits_parse`: The structure of a text fits.
* `Source.kept_of_value`: What is read is kept.
* `Source.value_source`: A kept value comes back.
* `Source.flaw_source`, `Source.exists_value_source`: What was written can be
  passed over and can be evaluated.
-/

namespace Retime

namespace Json

variable {β : Type}

/-! ### Maps -/

/-- Members that are ordered by their keys, no two of which have one key. -/
def Sorted (ms : List (String × β)) : Prop :=
  ms.Pairwise fun m n => m.1 < n.1

theorem mem_put {key : String} {v : β} {ms : List (String × β)} {m : String × β}
    (h : m ∈ put key v ms) : m = (key, v) ∨ m ∈ ms := by
  induction ms with
  | nil => exact Or.inl (List.mem_singleton.mp h)
  | cons n ms ih =>
      rw [put] at h
      -- The new member stands in front of a later key, in the place of its own, or further on.
      split at h
      · exact List.mem_cons.mp h
      · split at h
        · exact (List.mem_cons.mp h).imp_right (List.mem_cons_of_mem n)
        · rcases List.mem_cons.mp h with rfl | h
          · exact Or.inr List.mem_cons_self
          · exact (ih h).imp_right (List.mem_cons_of_mem n)

/-- A member that is put into a map leaves it ordered. -/
theorem Sorted.put {ms : List (String × β)} (h : Sorted ms) (key : String) (v : β) :
    Sorted (put key v ms) := by
  induction ms with
  | nil => exact List.pairwise_singleton _ _
  | cons n ms ih =>
      rcases List.pairwise_cons.mp h with ⟨hn, hms⟩
      rw [Json.put]
      split
      · next hlt =>
          refine List.pairwise_cons.mpr ⟨fun m hm => ?_, h⟩
          rcases List.mem_cons.mp hm with rfl | hm
          · exact hlt
          · exact String.lt_trans hlt (hn m hm)
      · next hnot =>
          split
          · next heq =>
              subst heq
              exact List.pairwise_cons.mpr ⟨hn, hms⟩
          · next hne =>
              -- It goes further back, and what it passes is below it.
              have hgt : n.1 < key :=
                Std.lt_of_le_of_ne (String.not_lt.mp hnot) fun h => hne h.symm
              refine List.pairwise_cons.mpr ⟨fun m hm => ?_, ih hms⟩
              rcases mem_put hm with rfl | hm
              · exact hgt
              · exact hn m hm

/-- What comes behind all members of a map is put at its end. -/
theorem put_last {key : String} {v : β} {ms : List (String × β)} (h : ∀ m ∈ ms, m.1 < key) :
    put key v ms = ms ++ [(key, v)] := by
  induction ms with
  | nil => rfl
  | cons n ms ih =>
      rcases List.forall_mem_cons.mp h with ⟨hn, hms⟩
      rw [put, if_neg (String.lt_asymm hn), if_neg fun (h : key = n.1) => ?_, ih hms]
      · rfl
      · exact String.lt_irrefl key (by rw [h] at hn ⊢; exact hn)

theorem mem_mapOf {ms : List (String × β)} {m : String × β} (h : m ∈ mapOf ms) : m ∈ ms := by
  have hall : ∀ map, m ∈ ms.foldl (fun map m => Json.put m.1 m.2 map) map → m ∈ map ∨ m ∈ ms := by
    clear h
    induction ms with
    | nil => exact fun _ h => Or.inl h
    | cons n ms ih =>
        intro map h
        rcases ih _ h with h | h
        · exact (mem_put h).symm.imp_right fun (h : m = n) => h ▸ List.mem_cons_self
        · exact Or.inr (List.mem_cons_of_mem n h)
  exact (hall [] h).resolve_left nofun

/-- The map of a list is ordered. -/
theorem sorted_mapOf (ms : List (String × β)) : Sorted (mapOf ms) := by
  have hall : ∀ map, Sorted map → Sorted (ms.foldl (fun map m => Json.put m.1 m.2 map) map) := by
    induction ms with
    | nil => exact fun _ h => h
    | cons n ms ih => exact fun map h => ih _ (h.put n.1 n.2)
  exact hall [] List.Pairwise.nil

/-- The map of an ordered list is the list. -/
theorem mapOf_of_sorted {ms : List (String × β)} (h : Sorted ms) : mapOf ms = ms := by
  -- Every member is above those that are in the map, so it is put behind them.
  have hall : ∀ map, Sorted (map ++ ms) →
      ms.foldl (fun map m => Json.put m.1 m.2 map) map = map ++ ms := by
    clear h
    induction ms with
    | nil => exact fun map _ => (List.append_nil map).symm
    | cons n ms ih =>
        intro map h
        have hlast : ∀ m ∈ map, m.1 < n.1 :=
          fun m hm => (List.pairwise_append.mp h).2.2 m hm n List.mem_cons_self
        rw [List.foldl_cons, put_last hlast, ih, List.append_assoc]
        · rfl
        · rwa [List.append_assoc]
  exact hall [] h

/-! ### Values -/

/-- A value that a document keeps, at a depth of nesting. -/
inductive Kept : Nat → Json Float → Prop
  | null {depth : Nat} : Kept depth .null
  | bool {depth : Nat} {b : Bool} : Kept depth (.bool b)
  | whole {depth : Nat} {n : Int} : InRange n → Kept depth (.number (.whole n))
  | real {depth : Nat} {x : Float} : x.isFinite = true → Kept depth (.number (.real x))
  | string {depth : Nat} {s : String} : Kept depth (.string s)
  | array {depth : Nat} {vs : List (Json Float)} :
      depth < Source.maxDepth → (∀ v ∈ vs, Kept (depth + 1) v) → Kept depth (.array vs)
  | object {depth : Nat} {ms : List (String × Json Float)} :
      depth < Source.maxDepth → Sorted ms → (∀ m ∈ ms, Kept (depth + 1) m.2) →
        Kept depth (.object ms)

/-- What is kept may stand where it was found. -/
theorem Kept.fits {depth : Nat} {v : Json Float} (h : v.Kept depth) : v.Fits InRange depth := by
  induction h with
  | null => exact .null
  | bool => exact .bool
  | whole hn => exact .whole hn
  | real => exact .real
  | string => exact .string
  | array hdepth _ ih => exact .array hdepth ih
  | object hdepth _ _ ih => exact .object hdepth ih

end Json

namespace Source

/-! ### Structures -/

/-- Whether a structure has parts. -/
def isContainer : Source → Bool
  | .array _ | .object _ => true
  | _ => false

/-- A structure at a depth that is nested no deeper than is looked at. -/
inductive Fits : Nat → Source → Prop
  | array {depth : Nat} {items : List Source} :
      depth < maxDepth → (∀ v ∈ items, Fits (depth + 1) v) → Fits depth (.array items)
  | object {depth : Nat} {members : List Member} :
      depth < maxDepth → (∀ m ∈ members, Fits (depth + 1) m.2) → Fits depth (.object members)
  | token {depth : Nat} {v : Source} : v.isContainer = false → Fits depth v

theorem Fits.items {depth : Nat} {items : List Source} (h : Fits depth (.array items)) :
    ∀ v ∈ items, v.Fits (depth + 1) := by
  cases h with
  | array _ h => exact h
  | token h => cases h

theorem Fits.members {depth : Nat} {members : List Member} (h : Fits depth (.object members)) :
    ∀ m ∈ members, m.2.Fits (depth + 1) := by
  cases h with
  | object _ h => exact h
  | token h => cases h

theorem fits_broken {depth : Nat} {place : Break} : Fits depth (.broken place) :=
  .token rfl

theorem fits_contained {depth : Nat} {v : Source} {rest : Rest}
    (h : depth < maxDepth → Fits depth v) : Fits depth (contained depth v rest).1 := by
  unfold contained
  split
  · next hdepth => exact h hdepth
  · exact .token rfl

theorem fits_token {depth : Nat} {place : TextError → Break}
    {r : Except TextError (Source × List Char)} (h : ∀ v rest, r = .ok (v, rest) → Fits depth v) :
    Fits depth (token place r).1 := by
  match r with
  | .error e => exact fits_broken
  | .ok (v, rest) => exact h v rest rfl

theorem fits_stringValue (depth : Nat) (r : Except Break (Except TextError String × List Char)) :
    Fits depth (stringValue r).1 := by
  match r with
  | .ok (.ok _, _) | .ok (.error _, _) | .error _ => exact .token rfl

theorem fits_readWord {depth : Nat} {v : Source} (hv : Fits depth v) {word cs : List Char}
    {u : Source} {rest : List Char} (h : readWord v word cs = .ok (u, rest)) : Fits depth u := by
  -- A word gives the value it stands for, or it is broken.
  induction word generalizing cs with
  | nil =>
      cases h
      exact hv
  | cons w word ih =>
      cases cs with
      | nil => cases h
      | cons c cs =>
          rw [readWord] at h
          split at h
          · exact ih h
          · cases h

theorem fits_readNumber {depth : Nat} {negative : Bool} {cs : List Char} {v : Source}
    {rest : List Char} (h : readNumber negative cs = .ok (v, rest)) : Fits depth v := by
  unfold readNumber at h
  rcases bind_ok_iff.mp h with ⟨_, _, h⟩
  rcases bind_ok_iff.mp h with ⟨_, _, h⟩
  rcases bind_ok_iff.mp h with ⟨_, _, h⟩
  cases h
  exact .token rfl

variable {fuel depth : Nat}

/-- One step of the reader of values. -/
theorem fits_readValue_succ
    (hitems : ∀ depth cs, ∀ v ∈ (readItems fuel depth cs).1, Fits depth v)
    (hmembers : ∀ depth cs, ∀ m ∈ (readMembers fuel depth cs).1, Fits depth m.2)
    (cs : List Char) : Fits depth (readValue (fuel + 1) depth cs).1 := by
  -- The cases are those of the first character, and rows are read with less fuel.
  rw [readValue]
  split
  · exact fits_broken
  · split
    · exact fits_contained fun hdepth => .array hdepth (List.forall_mem_nil _)
    · exact fits_contained fun hdepth => .array hdepth (hitems _ _)
  · split
    · exact fits_contained fun hdepth => .object hdepth (List.forall_mem_nil _)
    · exact fits_contained fun hdepth => .object hdepth (hmembers _ _)
  · exact fits_stringValue depth _
  · exact fits_token fun v rest h => fits_readWord (.token rfl) h
  · exact fits_token fun v rest h => fits_readWord (.token rfl) h
  · exact fits_token fun v rest h => fits_readWord (.token rfl) h
  · exact fits_token fun v rest h => fits_readNumber h
  · split
    · exact fits_token fun v rest h => fits_readNumber h
    · exact fits_broken

/-- One step of the reader of items. -/
theorem fits_readItems_succ (hvalues : ∀ cs, Fits depth (readValue fuel depth cs).1)
    (hitems : ∀ cs, ∀ v ∈ (readItems fuel depth cs).1, Fits depth v) (cs : List Char) :
    ∀ v ∈ (readItems (fuel + 1) depth cs).1, Fits depth v := by
  have hvalue := hvalues cs
  rw [readItems]
  split
  · next v e hread =>
      rw [hread] at hvalue
      exact List.forall_mem_singleton.mpr hvalue
  · next v rest hread =>
      rw [hread] at hvalue
      -- A break stands behind the items that have been read.
      have hbreak : ∀ e, ∀ u ∈ (breakItems [v] e).1, Fits depth u :=
        fun e => List.forall_mem_cons.mpr ⟨hvalue, List.forall_mem_singleton.mpr fits_broken⟩
      split
      · exact hbreak _
      · exact List.forall_mem_singleton.mpr hvalue
      · exact List.forall_mem_cons.mpr ⟨hvalue, hitems _⟩
      · exact hbreak _

/-- One step of the reader of members. -/
theorem fits_readMembers_succ (hvalues : ∀ cs, Fits depth (readValue fuel depth cs).1)
    (hmembers : ∀ cs, ∀ m ∈ (readMembers fuel depth cs).1, Fits depth m.2) (cs : List Char) :
    ∀ m ∈ (readMembers (fuel + 1) depth cs).1, Fits depth m.2 := by
  -- A key that breaks off has no value.
  have hkey : ∀ key place, ∀ m ∈ (breakMember key place).1, Fits depth m.2 :=
    fun key place => List.forall_mem_singleton.mpr fits_broken
  rw [readMembers]
  split
  · exact hkey _ _
  · split
    · exact hkey _ _
    · split
      · exact hkey _ _
      · next rest _ =>
          have hvalue := hvalues rest
          split
          · next v e hread =>
              rw [hread] at hvalue
              exact List.forall_mem_singleton.mpr hvalue
          · next v rest' hread =>
              rw [hread] at hvalue
              have hbreak : ∀ key e, ∀ m ∈ (breakMembers [(key, v)] e).1, Fits depth m.2 :=
                fun key e => List.forall_mem_cons.mpr
                  ⟨hvalue, List.forall_mem_singleton.mpr fits_broken⟩
              split
              · exact hbreak _ _
              · exact List.forall_mem_singleton.mpr hvalue
              · exact List.forall_mem_cons.mpr ⟨hvalue, hmembers _⟩
              · exact hbreak _ _
      · exact hkey _ _
  · exact hkey _ _

/-- Reading looks no deeper than it may. -/
theorem fits_read (fuel : Nat) :
    (∀ depth cs, Fits depth (readValue fuel depth cs).1) ∧
    (∀ depth cs, ∀ v ∈ (readItems fuel depth cs).1, Fits depth v) ∧
    (∀ depth cs, ∀ m ∈ (readMembers fuel depth cs).1, Fits depth m.2) := by
  -- Values, rows and members are read by way of each other, so all three go together.
  induction fuel with
  | zero =>
      refine ⟨fun depth cs => ?_, fun depth cs v hv => ?_, fun depth cs m hm => ?_⟩
      · rw [readValue]
        exact fits_broken
      · rw [readItems] at hv
        rw [List.mem_singleton.mp hv]
        exact fits_broken
      · rw [readMembers] at hm
        rw [List.mem_singleton.mp hm]
        exact fits_broken
  | succ fuel ih =>
      obtain ⟨ihValue, ihItems, ihMembers⟩ := ih
      exact ⟨fun _ cs => fits_readValue_succ ihItems ihMembers cs,
        fun depth cs => fits_readItems_succ (ihValue depth) (ihItems depth) cs,
        fun depth cs => fits_readMembers_succ (ihValue depth) (ihMembers depth) cs⟩

/-- The structure of a text fits. -/
theorem fits_parse (text : String) : Fits 0 (parse text).1 := by
  have hread := (fits_read (2 * text.toList.length + 1)).1 0 text.toList
  unfold parse
  dsimp only
  split
  · next v e h =>
      rw [h] at hread
      exact hread
  · next v rest h =>
      rw [h] at hread
      exact hread

/-! ### Their values -/

theorem values_ok_iff {items : List Source} {vs : List (Json Float)} :
    values items = .ok vs ↔ List.Forall₂ (fun u v => u.value = .ok v) items vs := by
  induction items generalizing vs with
  | nil =>
      rw [values, List.forall₂_nil_left_iff]
      exact ⟨fun h => (Except.ok.inj h).symm, fun h => congrArg Except.ok h.symm⟩
  | cons u items ih =>
      rw [values, bind_ok_iff, List.forall₂_cons_left_iff]
      -- A row is read just if its first value is and the others are.
      constructor
      · rintro ⟨v, hv, h⟩
        rcases bind_ok_iff.mp h with ⟨vs', hvs, h⟩
        cases h
        exact ⟨v, vs', hv, ih.mp hvs, rfl⟩
      · rintro ⟨v, vs', hv, hvs, rfl⟩
        exact ⟨v, hv, bind_ok_iff.mpr ⟨vs', ih.mpr hvs, rfl⟩⟩

theorem memberValues_ok_iff {members : List Member} {ms : List (String × Json Float)} :
    memberValues members = .ok ms ↔
      List.Forall₂ (fun m n => m.1 = .ok n.1 ∧ m.2.value = .ok n.2) members ms := by
  induction members generalizing ms with
  | nil =>
      rw [memberValues, List.forall₂_nil_left_iff]
      exact ⟨fun h => (Except.ok.inj h).symm, fun h => congrArg Except.ok h.symm⟩
  | cons m members ih =>
      obtain ⟨key, u⟩ := m
      rw [memberValues, bind_ok_iff, List.forall₂_cons_left_iff]
      -- The key is read in front of the value.
      constructor
      · rintro ⟨k, hk, h⟩
        rcases bind_ok_iff.mp h with ⟨v, hv, h⟩
        rcases bind_ok_iff.mp h with ⟨ms', hms, h⟩
        cases h
        exact ⟨(k, v), ms', ⟨hk, hv⟩, ih.mp hms, rfl⟩
      · rintro ⟨⟨k, v⟩, ms', ⟨hk, hv⟩, hms, rfl⟩
        exact ⟨k, hk, bind_ok_iff.mpr ⟨v, hv, bind_ok_iff.mpr ⟨ms', ih.mpr hms, rfl⟩⟩⟩

/-- A number that is whole has up to 64 bits, and any other is finite. -/
theorem kept_of_number? {depth : Nat} {s : Spelling} {n : Number Float} (h : s.number? = some n) :
    (Json.number n).Kept depth := by
  have hfinite := Spelling.number?_isFinite h
  unfold Spelling.number? at h
  dsimp only at h
  -- Whether it is whole does not depend on its sign.
  generalize (if s.negative = true then -(Text.value s.whole : Int) else Text.value s.whole) = k
    at h
  split at h
  · next hwhole =>
      cases h
      exact .whole hwhole.2.2
  · rcases Option.map_eq_some_iff.mp h with ⟨x, -, rfl⟩
    exact .real hfinite

/-- What is read of a structure that fits is a kept value. -/
theorem kept_of_value {depth : Nat} {u : Source} (hu : Fits depth u) {v : Json Float}
    (h : u.value = .ok v) : v.Kept depth := by
  induction hu generalizing v with
  | @array depth items hdepth _ ih =>
      rw [value] at h
      rcases bind_ok_iff.mp h with ⟨vs, hvs, h⟩
      cases h
      refine .array hdepth fun w hw => ?_
      rcases exists_of_mem_right (values_ok_iff.mp hvs) hw with ⟨u, hu, hvalue⟩
      exact ih u hu hvalue
  | @object depth members hdepth _ ih =>
      rw [value] at h
      rcases bind_ok_iff.mp h with ⟨ms, hms, h⟩
      cases h
      -- The map has no member that was not read.
      refine .object hdepth (Json.sorted_mapOf ms) fun m hm => ?_
      rcases exists_of_mem_right (memberValues_ok_iff.mp hms) (Json.mem_mapOf hm) with
        ⟨n, hn, -, hvalue⟩
      exact ih n hn hvalue
  | @token depth u htoken =>
      cases u with
      | null => cases h; exact .null
      | bool b => cases h; exact .bool
      | number s =>
          rw [value] at h
          split at h
          · next n hn =>
              cases h
              exact kept_of_number? hn
          · cases h
      | string s => cases h; exact .string
      | array | object => cases htoken
      | unreadable | broken => cases h

/-! ### Written values -/

theorem values_sourceItems {vs ws : List (Json Float)}
    (h : List.Forall₂ (fun v w => v.source.value = .ok w) vs ws) :
    values (Json.sourceItems vs) = .ok ws := by
  induction h with
  | nil => rw [Json.sourceItems, values]
  | cons hv _ ih =>
      rw [Json.sourceItems, values]
      exact bind_ok_iff.mpr ⟨_, hv, bind_ok_iff.mpr ⟨_, ih, rfl⟩⟩

theorem memberValues_sourceMembers {ms ns : List (String × Json Float)}
    (h : List.Forall₂ (fun m n => m.1 = n.1 ∧ m.2.source.value = .ok n.2) ms ns) :
    memberValues (Json.sourceMembers ms) = .ok ns := by
  induction h with
  | nil => rw [Json.sourceMembers, memberValues]
  | @cons m n ms ns hm _ ih =>
      obtain ⟨k, v⟩ := m
      rw [Json.sourceMembers, memberValues]
      exact bind_ok_iff.mpr ⟨_, congrArg Except.ok hm.1,
        bind_ok_iff.mpr ⟨_, hm.2, bind_ok_iff.mpr ⟨_, ih, rfl⟩⟩⟩

/-- A double that has a form comes back, if it is read back at all. -/
theorem value_real {x : Float} (hx : x.isFinite = true) (h : Rereads x) :
    ∃ s, (Json.number (.real x)).source = .number s ∧ s.number? = some (Number.real x) := by
  rcases h.spelling with ⟨s, tail, hparse, -, -, hs⟩
  refine ⟨s, ?_, hs⟩
  rw [Json.source, if_pos hx, hparse]

/-- A kept value comes back. -/
theorem value_source {depth : Nat} {v : Json Float} (hv : v.Kept depth) (hreals : v.Faithful) :
    v.source.value = .ok v := by
  induction hv with
  | null | bool | string => rw [Json.source, value]
  | whole hn => rw [Json.source, value, Spelling.number?_ofInt hn]
  | @real _ x hx =>
      rcases value_real hx (hreals.real hx) with ⟨s, hsource, hs⟩
      rw [hsource, value, hs]
  | @array _ vs _ _ ih =>
      have hvs : List.Forall₂ (fun v w => v.source.value = .ok w) vs vs :=
        List.forall₂_same.mpr fun v hv => ih v hv (hreals.item hv)
      rw [Json.source, value, values_sourceItems hvs]
      rfl
  | @object _ ms _ hsorted _ ih =>
      have hms : List.Forall₂ (fun m n => m.1 = n.1 ∧ m.2.source.value = .ok n.2) ms ms :=
        List.forall₂_same.mpr fun m hm => ⟨rfl, ih m hm (hreals.member hm)⟩
      rw [Json.source, value, memberValues_sourceMembers hms]
      -- The keys were in order, so the map puts every member where it was.
      exact congrArg (Except.ok ∘ Json.object) (Json.mapOf_of_sorted hsorted)

theorem flaw_sourceItems {vs : List (Json Float)} (h : ∀ v ∈ vs, v.source.flaw? = none) :
    flawOfItems? (Json.sourceItems vs) = none := by
  induction vs with
  | nil => rw [Json.sourceItems, flawOfItems?]
  | cons v vs ih =>
      rcases List.forall_mem_cons.mp h with ⟨hv, hvs⟩
      rw [Json.sourceItems, flawOfItems?, hv, ih hvs]
      rfl

theorem flaw_sourceMembers {ms : List (String × Json Float)}
    (h : ∀ m ∈ ms, m.2.source.flaw? = none) :
    flawOfMembers? (Json.sourceMembers ms) = none := by
  induction ms with
  | nil => rw [Json.sourceMembers, flawOfMembers?]
  | cons m ms ih =>
      obtain ⟨k, v⟩ := m
      rcases List.forall_mem_cons.mp h with ⟨hv, hms⟩
      have hv : v.source.flaw? = none := hv
      rw [Json.sourceMembers, flawOfMembers?, hv, ih hms]
      rfl

/-- What was written can be passed over. -/
theorem flaw_source {W : Int → Prop} {depth : Nat} {v : Json Float} (hv : v.Fits W depth)
    (hreals : v.Faithful) : v.source.flaw? = none := by
  induction hv with
  | null | bool | whole | string => rw [Json.source, flaw?]
  | @real _ x =>
      -- A number that is not finite was written as null.
      by_cases hx : x.isFinite = true
      · rcases value_real hx (hreals.real hx) with ⟨s, hsource, -⟩
        rw [hsource, flaw?]
      · rw [Json.source, if_neg hx, flaw?]
  | array _ _ ih =>
      rw [Json.source, flaw?]
      exact flaw_sourceItems fun v hv => ih v hv (hreals.item hv)
  | object _ _ ih =>
      rw [Json.source, flaw?]
      exact flaw_sourceMembers fun m hm => ih m hm (hreals.member hm)

/-- What was written can be evaluated, if its whole numbers are in range. -/
theorem exists_value_source {depth : Nat} {v : Json Float} (hv : v.Fits Json.InRange depth)
    (hreals : v.Faithful) : ∃ w : Json Float, v.source.value = .ok w := by
  induction hv with
  | null | bool | string =>
      rw [Json.source, value]
      exact ⟨_, rfl⟩
  | whole hn =>
      rw [Json.source, value, Spelling.number?_ofInt hn]
      exact ⟨_, rfl⟩
  | @real _ x =>
      by_cases hx : x.isFinite = true
      · rcases value_real hx (hreals.real hx) with ⟨s, hsource, hs⟩
        rw [hsource, value, hs]
        exact ⟨_, rfl⟩
      -- Without a form it is written as null, and null has a value.
      · rw [Json.source, if_neg hx, value]
        exact ⟨_, rfl⟩
  | @array _ vs _ _ ih =>
      rcases exists_forall₂ fun v hv => ih v hv (hreals.item hv) with ⟨ws, hws⟩
      rw [Json.source, value, values_sourceItems hws]
      exact ⟨_, rfl⟩
  | @object _ ms _ _ ih =>
      have hvalues : ∀ m ∈ ms, ∃ n : String × Json Float,
          m.1 = n.1 ∧ m.2.source.value = .ok n.2 := fun m hm => by
        rcases ih m hm (hreals.member hm) with ⟨w, hw⟩
        exact ⟨(m.1, w), rfl, hw⟩
      rcases exists_forall₂ hvalues with ⟨ns, hns⟩
      rw [Json.source, value, memberValues_sourceMembers hns]
      exact ⟨_, rfl⟩

end Source

end Retime
