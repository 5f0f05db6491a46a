import Mathlib.Data.List.Nodup
import Retime.Document.Shape
import Retime.Proofs.KeptValues

/-!
# Written Records

What is read of a record, and what is read of one that was written.

The reader goes through the members of a document in the order of the
document. What holds of the blank record, and of any record after a member has
been set, holds of every record that is read: `Upholds` is that invariant, and
it is carried through objects and arrays alike.

A written record is read the same way. The writers keep to the order in which
a shape lists its members, and leave some out. `Takes` goes through both lists
at once, so no member comes twice and none that is required is left out, and
neither has to be asked. Members that a shape does not know may stand anywhere
between.

Whether a value comes back is one question, whether it may be written where it
stands is another, and both have an answer for every part of a document.
`Returns` is the two together.

## Main definitions

* `Shape.Upholds`: A property that every member of a record leaves in place.
* `Returns`: A value that may stand somewhere and is read back.
* `Shape.Takes`: Members in the order of a shape, and the record they make.

## Theorems

* `Shape.readMembers_upholds`, `Shape.readClosed_upholds`: Invariants hold of
  what is read.
* `Shape.Takes.readMembers`: Members in order make the record.
* `Shape.Takes.returns`: So a closed record comes back.
-/

namespace Retime

theorem evaluated_ok_iff {β : Type} {r : Except TextError β} {b : β} :
    (evaluated r : Except (DocumentError Float) β) = .ok b ↔ r = .ok b := by
  cases r with
  | ok c => exact ⟨fun h => congrArg Except.ok (Except.ok.inj h),
      fun h => congrArg Except.ok (Except.ok.inj h)⟩
  | error e => exact ⟨nofun, nofun⟩

namespace Shape

variable {δ : Type} {shape : Shape Float δ}

/-- The names of the members that a shape lists. -/
def names (shape : Shape Float δ) : List String :=
  shape.fields.map Field.name

/-- A property that holds of the blank record, and that every member leaves in
    place, if it is set from a structure that fits. -/
structure Upholds (shape : Shape Float δ) (depth : Nat) (P : δ → Prop) : Prop where
  blank : P shape.blank
  set : ∀ f ∈ shape.fields, ∀ v d d', v.Fits depth → P d → f.set v d = .ok d' → P d'

/-- Nothing is asked of a record. -/
theorem upholds_nothing {depth : Nat} : shape.Upholds depth fun _ => True :=
  ⟨trivial, fun _ _ _ _ _ _ _ _ => trivial⟩

theorem find?_eq_none_iff {name : String} :
    (shape.fields.find? fun f => f.name = name) = none ↔ name ∉ shape.names := by
  rw [List.find?_eq_none, names, List.mem_map]
  refine ⟨fun h ⟨f, hf, hname⟩ => h f hf (decide_eq_true hname), fun h f hf hname => ?_⟩
  exact h ⟨f, hf, of_decide_eq_true hname⟩

/-- A listed member is found by its name, if no two have one. -/
theorem find?_name (hnames : shape.names.Nodup) {f : Field Float δ} (hf : f ∈ shape.fields) :
    (shape.fields.find? fun g => g.name = f.name) = some f := by
  cases hfind : shape.fields.find? fun g => g.name = f.name with
  | none => exact absurd (List.mem_map_of_mem hf) (find?_eq_none_iff.mp hfind)
  | some g =>
      have hname : g.name = f.name := by simpa using List.find?_some hfind
      rw [List.inj_on_of_nodup_map hnames (List.mem_of_find?_eq_some hfind) hf hname]

/-! ### Reading records -/

/-- What reading members upholds, and which of them are passed on. -/
theorem takeMembers_upholds {depth : Nat} {P : δ → Prop} (h : shape.Upholds depth P)
    {other : Source → Except (DocumentError Float) Unit} {seen seen' : List String} {d d' : δ}
    {ms rest : List Source.Member} (hms : ∀ m ∈ ms, m.2.Fits depth) (hd : P d)
    (hread : shape.takeMembers other seen d ms = .ok (seen', d', rest)) :
    P d' ∧ ∀ m ∈ rest, m ∈ ms ∧ ∃ k, m.1 = .ok k ∧ k ∉ shape.names := by
  induction ms generalizing seen d rest with
  | nil =>
      rw [takeMembers] at hread
      cases hread
      exact ⟨hd, nofun⟩
  | cons m ms ih =>
      obtain ⟨key, v⟩ := m
      rcases List.forall_mem_cons.mp hms with ⟨hv, hms⟩
      rw [takeMembers] at hread
      rcases bind_ok_iff.mp hread with ⟨k, hkey, hread⟩
      split at hread
      -- A name that is not known is passed on.
      · next hfind =>
          rcases bind_ok_iff.mp hread with ⟨_, _, hread⟩
          rcases bind_ok_iff.mp hread with ⟨⟨seen₁, d₁, rest₁⟩, hmore, hread⟩
          cases hread
          rcases ih hms hd hmore with ⟨hd', hrest⟩
          exact ⟨hd', List.forall_mem_cons.mpr
            ⟨⟨List.mem_cons_self, k, evaluated_ok_iff.mp hkey, find?_eq_none_iff.mp hfind⟩,
              fun n hn => ⟨List.mem_cons_of_mem _ (hrest n hn).1, (hrest n hn).2⟩⟩⟩
      -- A name that is known sets its member.
      · next f hfind =>
          split at hread
          · cases hread
          · rcases bind_ok_iff.mp hread with ⟨d₁, hset, hread⟩
            have hd₁ := h.set f (List.mem_of_find?_eq_some hfind) v d d₁ hv hd hset
            rcases ih hms hd₁ hread with ⟨hd', hrest⟩
            exact ⟨hd', fun n hn => ⟨List.mem_cons_of_mem _ (hrest n hn).1, (hrest n hn).2⟩⟩

theorem readMembers_upholds {depth : Nat} {P : δ → Prop} (h : shape.Upholds depth P)
    {other : Source → Except (DocumentError Float) Unit} {d : δ} {ms rest : List Source.Member}
    (hms : ∀ m ∈ ms, m.2.Fits depth) (hread : shape.readMembers other ms = .ok (d, rest)) :
    P d ∧ ∀ m ∈ rest, m ∈ ms ∧ ∃ k, m.1 = .ok k ∧ k ∉ shape.names := by
  unfold readMembers at hread
  rcases bind_ok_iff.mp hread with ⟨⟨seen, d', rest'⟩, htake, hread⟩
  dsimp only at hread
  split at hread
  · cases hread
  · cases hread
    exact takeMembers_upholds h hms h.blank htake

theorem takeItems_upholds {depth : Nat} {P : δ → Prop} (h : shape.Upholds depth P)
    {medium : Medium} {fs : List (Field Float δ)} (hfs : ∀ f ∈ fs, f ∈ shape.fields)
    {count : Nat} {d d' : δ} {vs : List Source} (hvs : ∀ v ∈ vs, v.Fits depth) (hd : P d)
    (hread : shape.takeItems medium fs count d vs = .ok d') : P d' := by
  induction fs generalizing count d vs with
  | nil =>
      cases vs with
      | nil =>
          cases hread
          exact hd
      | cons v vs => cases hread
  | cons f fs ih =>
      rcases List.forall_mem_cons.mp hfs with ⟨hf, hfs⟩
      cases vs with
      | nil =>
          rw [takeItems] at hread
          -- Where an array ends early, the fields that are left stay as they are.
          split at hread
          · cases hread
          · exact ih hfs (List.forall_mem_nil _) hd hread
      | cons v vs =>
          rcases List.forall_mem_cons.mp hvs with ⟨hv, hvs⟩
          rw [takeItems] at hread
          rcases bind_ok_iff.mp hread with ⟨d₁, hset, hread⟩
          exact ih hfs hvs (h.set f hf v d d₁ hv hd hset) hread

/-- What holds of the blank record holds of every closed one that is read. -/
theorem readClosed_upholds {depth : Nat} {P : δ → Prop} (h : shape.Upholds (depth + 1) P)
    {medium : Medium} {v : Source} (hv : v.Fits depth) {d : δ}
    (hread : shape.readClosed medium v = .ok d) : P d := by
  unfold readClosed at hread
  split at hread
  · rcases bind_ok_iff.mp hread with ⟨⟨d', rest⟩, hread, hd⟩
    cases hd
    exact (readMembers_upholds h hv.members hread).1
  · exact takeItems_upholds h (fun _ hf => hf) hv.items h.blank hread
  · cases hread

/-- What is read of an open record is read of an object. -/
theorem readOpen_upholds {depth : Nat} {P : δ → Prop} (h : shape.Upholds (depth + 1) P)
    {v : Source} (hv : v.Fits depth) {d : δ} {rest : List Source.Member}
    (hread : shape.readOpen v = .ok (d, rest)) :
    ∃ ms, v = .object ms ∧ P d ∧ ∀ m ∈ rest, m ∈ ms ∧ ∃ k, m.1 = .ok k ∧ k ∉ shape.names := by
  unfold readOpen at hread
  split at hread
  · next ms => exact ⟨ms, rfl, readMembers_upholds h hv.members hread⟩
  · cases hread

end Shape

/-! ### Written values -/

/-- A value that may stand at a depth, and that is read back, if its doubles
    are. -/
structure Returns {β : Type} (W : Int → Prop) (depth : Nat)
    (read : Source → Except (DocumentError Float) β) (v : Json Float) (b : β) : Prop where
  fits : v.Fits W depth
  back : v.Faithful → read v.source = .ok b

theorem Returns.imp {β : Type} {W W' : Int → Prop} (hW : ∀ n, W n → W' n) {depth : Nat}
    {read : Source → Except (DocumentError Float) β} {v : Json Float} {b : β}
    (h : Returns W depth read v b) : Returns W' depth read v b :=
  ⟨h.fits.imp hW, h.back⟩

/-- What comes back comes back where null may stand, unless it is null. -/
theorem Returns.optional {β : Type} {W : Int → Prop} {depth : Nat}
    {read : Source → Except (DocumentError Float) β} {v : Json Float} {b : β}
    (hnull : ∀ b, read .null ≠ .ok b) (h : Returns W depth read v b) :
    Returns W depth (readOption read) v (some b) := by
  refine ⟨h.fits, fun hreals => ?_⟩
  have hread := h.back hreals
  unfold readOption
  split
  · next hsource => exact absurd (hsource ▸ hread) (hnull b)
  · rw [hread]
    rfl

/-! ### Written records -/

namespace Shape

variable {δ : Type} {shape : Shape Float δ} {W : Int → Prop} {depth : Nat}

/-- Members in the order of a list of fields, the record that they make of
    another, and those among them that the shape does not know. -/
inductive Takes (shape : Shape Float δ) (W : Int → Prop) (depth : Nat) :
    List (Field Float δ) → δ → List (String × Json Float) → δ → List (String × Json Float) → Prop
  | done {fs : List (Field Float δ)} {d : δ} :
      (∀ f ∈ fs, f.required = false) → Takes shape W depth fs d [] d []
  | absent {f : Field Float δ} {fs : List (Field Float δ)} {d d' : δ}
      {ms rest : List (String × Json Float)} :
      f.required = false → Takes shape W depth fs d ms d' rest →
        Takes shape W depth (f :: fs) d ms d' rest
  | known {f : Field Float δ} {fs : List (Field Float δ)} {d d₁ d' : δ} {v : Json Float}
      {ms rest : List (String × Json Float)} :
      Returns W depth (f.set · d) v d₁ → Takes shape W depth fs d₁ ms d' rest →
        Takes shape W depth (f :: fs) d ((f.name, v) :: ms) d' rest
  | unknown {fs : List (Field Float δ)} {d d' : δ} {m : String × Json Float}
      {ms rest : List (String × Json Float)} :
      m.1 ∉ shape.names → m.2.Fits W depth → Takes shape W depth fs d ms d' rest →
        Takes shape W depth fs d (m :: ms) d' (m :: rest)

variable {fs : List (Field Float δ)} {d d' : δ} {ms rest : List (String × Json Float)}

theorem Takes.fits (h : shape.Takes W depth fs d ms d' rest) : ∀ m ∈ ms, m.2.Fits W depth := by
  induction h with
  | done => exact List.forall_mem_nil _
  | absent _ _ ih => exact ih
  | known hv _ ih => exact List.forall_mem_cons.mpr ⟨hv.fits, ih⟩
  | unknown _ hv _ ih => exact List.forall_mem_cons.mpr ⟨hv, ih⟩

/-- Every member is one that the shape lists or one that is passed on. -/
theorem Takes.keys (h : shape.Takes W depth fs d ms d' rest) :
    ∀ m ∈ ms, m.1 ∈ fs.map Field.name ∨ m ∈ rest := by
  induction h with
  | done => exact List.forall_mem_nil _
  | absent _ _ ih => exact fun m hm => (ih m hm).imp_left (List.mem_cons_of_mem _)
  | known _ _ ih =>
      exact List.forall_mem_cons.mpr ⟨Or.inl List.mem_cons_self,
        fun m hm => (ih m hm).imp_left (List.mem_cons_of_mem _)⟩
  | unknown _ _ _ ih =>
      exact List.forall_mem_cons.mpr ⟨Or.inr List.mem_cons_self,
        fun m hm => (ih m hm).imp_right (List.mem_cons_of_mem _)⟩

/-- Members in order are taken one by one, whatever has been taken before. -/
theorem Takes.takeMembers (hnames : shape.names.Nodup)
    {other : Source → Except (DocumentError Float) Unit}
    (h : shape.Takes W depth fs d ms d' rest) (hfs : fs <:+ shape.fields)
    (hother : ∀ m ∈ rest, other m.2.source = .ok ())
    (hreals : ∀ m ∈ ms, m.2.Faithful) (seen : List String) (hseen : ∀ f ∈ fs, f.name ∉ seen) :
    ∃ seen', shape.takeMembers other seen d (Json.sourceMembers ms) =
        .ok (seen', d', Json.sourceMembers rest) ∧
      (∀ name ∈ seen, name ∈ seen') ∧ ∀ f ∈ fs, f.required = true → f.name ∈ seen' := by
  induction h generalizing seen with
  | done hfree =>
      rw [Json.sourceMembers, Shape.takeMembers]
      refine ⟨seen, rfl, fun _ h => h, fun f hf h => ?_⟩
      rw [hfree f hf] at h
      cases h
  | @absent f fs d d' ms rest hfree _ ih =>
      rcases List.forall_mem_cons.mp hseen with ⟨-, hseen⟩
      rcases ih ((List.suffix_cons f fs).trans hfs) hother hreals seen hseen with
        ⟨seen', htake, hmore, hreq⟩
      -- A field that is left out is not required, so nobody misses it.
      refine ⟨seen', htake, hmore, List.forall_mem_cons.mpr ⟨fun h => ?_, hreq⟩⟩
      rw [hfree] at h
      cases h
  | @known f fs d d₁ d' v ms rest hv _ ih =>
      rcases List.forall_mem_cons.mp hseen with ⟨hfseen, hseen⟩
      rcases List.forall_mem_cons.mp hreals with ⟨hvreals, hreals⟩
      have hf : f ∈ shape.fields := hfs.subset List.mem_cons_self
      -- Names are apart, so what has just been taken does not come again.
      have hapart : ∀ g ∈ fs, g.name ∉ f.name :: seen := by
        have hsub : ((f :: fs).map Field.name).Nodup := (hfs.sublist.map Field.name).nodup hnames
        have hne := (List.nodup_cons.mp hsub).1
        intro g hg hmem
        rcases List.mem_cons.mp hmem with heq | hmem
        · exact hne (heq ▸ List.mem_map_of_mem hg)
        · exact hseen g hg hmem
      rcases ih ((List.suffix_cons f fs).trans hfs) hother hreals (f.name :: seen) hapart with
        ⟨seen', htake, hmore, hreq⟩
      refine ⟨seen', ?_, fun name h => hmore name (List.mem_cons_of_mem _ h),
        List.forall_mem_cons.mpr ⟨fun _ => hmore _ List.mem_cons_self, hreq⟩⟩
      have hcontains : seen.contains f.name = false := by
        rw [List.contains_eq_mem]
        exact decide_eq_false hfseen
      rw [Json.sourceMembers, Shape.takeMembers]
      refine bind_ok_iff.mpr ⟨f.name, rfl, ?_⟩
      rw [find?_name hnames hf]
      dsimp only
      rw [hcontains]
      exact bind_ok_iff.mpr ⟨d₁, hv.back hvreals, htake⟩
  | @unknown fs d d' m ms rest hk _ _ ih =>
      obtain ⟨k, v⟩ := m
      rcases List.forall_mem_cons.mp hreals with ⟨-, hreals⟩
      rcases List.forall_mem_cons.mp hother with ⟨hv, hother⟩
      rcases ih hfs hother hreals seen hseen with ⟨seen', htake, hmore, hreq⟩
      refine ⟨seen', ?_, hmore, hreq⟩
      rw [Json.sourceMembers, Shape.takeMembers]
      refine bind_ok_iff.mpr ⟨k, rfl, ?_⟩
      rw [find?_eq_none_iff.mpr hk]
      exact bind_ok_iff.mpr ⟨(), hv, bind_ok_iff.mpr ⟨_, htake, rfl⟩⟩

/-- Members in the order of a shape make the record. -/
theorem Takes.readMembers (hnames : shape.names.Nodup)
    {other : Source → Except (DocumentError Float) Unit}
    (h : shape.Takes W depth shape.fields shape.blank ms d' rest)
    (hother : ∀ m ∈ rest, other m.2.source = .ok ()) (hreals : ∀ m ∈ ms, m.2.Faithful) :
    shape.readMembers other (Json.sourceMembers ms) = .ok (d', Json.sourceMembers rest) := by
  rcases h.takeMembers hnames (List.suffix_refl _) hother hreals [] (fun _ _ => List.not_mem_nil)
    with ⟨seen, htake, -, hreq⟩
  unfold Shape.readMembers
  refine bind_ok_iff.mpr ⟨_, htake, ?_⟩
  -- Every required field was seen, so none is found missing.
  have hnone : (shape.fields.find? fun f => f.required && !seen.contains f.name) = none := by
    refine List.find?_eq_none.mpr fun f hf h => ?_
    rcases Bool.and_eq_true_iff.mp h with ⟨hrequired, hmissing⟩
    rw [List.contains_eq_mem, decide_eq_true (hreq f hf hrequired)] at hmissing
    cases hmissing
  dsimp only
  rw [hnone]
  rfl

/-- What is passed on was among the members. -/
theorem Takes.rest_subset (h : shape.Takes W depth fs d ms d' rest) : ∀ m ∈ rest, m ∈ ms := by
  induction h with
  | done => exact List.forall_mem_nil _
  | absent _ _ ih => exact ih
  | known _ _ ih => exact fun m hm => List.mem_cons_of_mem _ (ih m hm)
  | unknown _ _ _ ih =>
      exact List.forall_mem_cons.mpr
        ⟨List.mem_cons_self, fun m hm => List.mem_cons_of_mem _ (ih m hm)⟩

/-- Members in order make the record, if the others are passed over. -/
theorem Takes.readMembers_passOver (hnames : shape.names.Nodup)
    (h : shape.Takes W depth shape.fields shape.blank ms d' rest)
    (hreals : ∀ m ∈ ms, m.2.Faithful) :
    shape.readMembers passOver (Json.sourceMembers ms) = .ok (d', Json.sourceMembers rest) := by
  refine h.readMembers hnames (fun m hm => ?_) hreals
  have hm := h.rest_subset m hm
  unfold passOver
  rw [Source.flaw_source (h.fits m hm) (hreals m hm)]

/-- A closed record that was written in order comes back. -/
theorem Takes.returns (hnames : shape.names.Nodup) {medium : Medium}
    (h : shape.Takes W (depth + 1) shape.fields shape.blank ms d' rest)
    (hdepth : depth < Source.maxDepth) :
    Returns W depth (shape.readClosed medium) (.object ms) d' where
  fits := .object hdepth h.fits
  back hreals := by
    rw [Json.source]
    exact bind_ok_iff.mpr ⟨_, h.readMembers_passOver hnames fun _ => hreals.member, rfl⟩

/-- An open record that was written in order comes back, and what it does not
    know is passed on, if it can be evaluated. -/
theorem Takes.readOpen (hnames : shape.names.Nodup)
    (h : shape.Takes W (depth + 1) shape.fields shape.blank ms d' rest)
    (hrest : ∀ m ∈ rest, m.2.Fits Json.InRange (depth + 1)) (hreals : (Json.object ms).Faithful) :
    shape.readOpen (Json.object ms).source = .ok (d', Json.sourceMembers rest) := by
  rw [Json.source]
  refine h.readMembers hnames (fun m hm => ?_) fun _ => hreals.member
  rcases Source.exists_value_source (hrest m hm) (hreals.member (h.rest_subset m hm)) with ⟨w, hw⟩
  exact bind_ok_iff.mpr ⟨w, evaluated_ok_iff.mpr hw, rfl⟩

/-- A member that is always there. -/
theorem Takes.present {β : Type} {f : Field Float δ} {v : Json Float} {b : β}
    {read : Source → Except (DocumentError Float) β} {set : β → δ → δ}
    (hset : ∀ u d, f.set u d = (read u >>= fun b => .ok (set b d)))
    (hback : Returns W depth read v b) (h : shape.Takes W depth fs (set b d) ms d' rest) :
    shape.Takes W depth (f :: fs) d ((f.name, v) :: ms) d' rest := by
  refine .known ⟨hback.fits, fun hreals => ?_⟩ h
  rw [hset, hback.back hreals]
  rfl

/-- A member that may be absent, if nothing is read of null. -/
theorem Takes.option {β : Type} {f : Field Float δ} {o : Option β} {toJson : β → Json Float}
    {read : Source → Except (DocumentError Float) β} {set : Option β → δ → δ}
    (hset : ∀ u d, f.set u d = (readOption read u >>= fun o => .ok (set o d)))
    (hfree : f.required = false) (hnone : set none d = d) (hnull : ∀ b, read .null ≠ .ok b)
    (hback : ∀ b ∈ o, Returns W depth read (toJson b) b)
    (h : shape.Takes W depth fs (set o d) ms d' rest) :
    shape.Takes W depth (f :: fs) d (Json.member? f.name (o.map toJson) ++ ms) d' rest := by
  cases o with
  | none =>
      rw [hnone] at h
      exact .absent hfree h
  | some b => exact .present hset ((hback b rfl).optional hnull) h

/-- Members that a shape does not know are passed on. -/
theorem Takes.unknowns {ns : List (String × Json Float)}
    (hns : ∀ m ∈ ns, m.1 ∉ shape.names ∧ m.2.Fits W depth)
    (h : shape.Takes W depth fs d ms d' rest) :
    shape.Takes W depth fs d (ns ++ ms) d' (ns ++ rest) := by
  induction ns with
  | nil => exact h
  | cons m ns ih =>
      rcases List.forall_mem_cons.mp hns with ⟨hm, hns⟩
      exact .unknown hm.1 hm.2 (ih hns)

theorem Takes.passed {ns : List (String × Json Float)}
    (hns : ∀ m ∈ ns, m.1 ∉ shape.names ∧ m.2.Fits W depth) : shape.Takes W depth [] d ns d ns := by
  have hend : shape.Takes W depth [] d [] d [] := .done (List.forall_mem_nil _)
  have hall := hend.unknowns hns
  rwa [List.append_nil] at hall

end Shape

/-! ### Members that nobody knows -/

/-- What is kept of members is a map of kept values, each of which is the
    value of a member under its key. -/
theorem readRest_kept {depth : Nat} {ms : List Source.Member} (hms : ∀ m ∈ ms, m.2.Fits depth)
    {kept : List (String × Json Float)} (h : readRest ms = .ok kept) :
    Json.Sorted kept ∧ ∀ n ∈ kept, n.2.Kept depth ∧
      ∃ m ∈ ms, m.1 = .ok n.1 ∧ m.2.value = .ok n.2 := by
  rcases map_ok_iff.mp h with ⟨ns, hns, rfl⟩
  refine ⟨Json.sorted_mapOf ns, fun n hn => ?_⟩
  rcases exists_of_mem_right (Source.memberValues_ok_iff.mp (evaluated_ok_iff.mp hns))
    (Json.mem_mapOf hn) with ⟨m, hm, hkey, hvalue⟩
  exact ⟨Source.kept_of_value (hms m hm) hvalue, m, hm, hkey, hvalue⟩

/-- A map of kept values comes back. -/
theorem readRest_source {depth : Nat} {kept : List (String × Json Float)}
    (hsorted : Json.Sorted kept) (hkept : ∀ n ∈ kept, n.2.Kept depth)
    (hreals : ∀ n ∈ kept, n.2.Faithful) : readRest (Json.sourceMembers kept) = .ok kept := by
  have hvalues : (Source.memberValues (Json.sourceMembers kept)) = .ok kept :=
    Source.memberValues_sourceMembers <| List.forall₂_same.mpr fun n hn =>
      ⟨rfl, Source.value_source (hkept n hn) (hreals n hn)⟩
  exact map_ok_iff.mpr ⟨kept, evaluated_ok_iff.mpr hvalues, Json.mapOf_of_sorted hsorted⟩

end Retime
