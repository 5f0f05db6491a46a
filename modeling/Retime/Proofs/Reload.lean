import Retime.Proofs.StoredPairs

/-!
# Saving and Loading

A document that is saved and loaded again.

What is lost is what a document does not hold: the moves of the markers, and
the points between the ends of a map that has only one speed. What is saved
after that is saved as before, so one time is enough.

That a document comes back is a matter of its doubles. Reading rounds twice, so
whether a double is read back is asked of each one that the document writes.
Those that are not finite are written as null, and only a play time can be one.

What was given without being interpreted stands in the text that was read, and
stands in the text that is saved.

## Main definitions

* `Pair.Reloads`: What is the same of a pair that was saved and loaded.
* `Markers.Writable`: A document that can be written and read again.
* `Markers.Stored`: A document as it is after it has been read.
* `Holds`: A text with a member of a name and a value.

## Theorems

* `Markers.parse_stored`: What is read is a stored document.
* `Markers.Writable.parse_text`: A document that can be written is read from its
  text, with the pairs that its records make.
* `Markers.Stored.parse_text`: A stored document is read as it was.
* `reload_is_lossless`: A document survives saving and loading.
-/

namespace Retime

namespace Pair

/-- What is the same of a pair that was saved and loaded. -/
structure Reloads (p q : Pair Float) : Prop where
  start : q.start = p.start
  stop : q.stop = p.stop
  speed : q.speed = p.speed
  crop : q.crop = p.crop
  overrides : q.overrides = p.overrides
  loop : q.loop = p.loop
  playTime : q.playTime = p.playTime
  /-- The map is the same, if it varies or has only its ends. -/
  map : p.map.isVariable = true ∨ p.map.points.length = 2 → q.map = p.map
  /-- Any other map is left with its ends and the speed of the first. -/
  plain : p.map.isVariable = false → q.map.points = [⟨p.start, p.speed⟩, ⟨p.stop, p.speed⟩]

theorem isVariable_plain {start stop speed : Float} (hspeed : speed.isFinite = true) :
    (SpeedMap.plain start stop speed).isVariable = false := by
  change (!(speed == speed) || false) = false
  rw [Double.beq_self hspeed]
  rfl

theorem Stored.reloads {depth : Nat} {p : Pair Float} (hp : p.Stored depth) :
    p.Reloads p.reloaded := by
  -- Only a map of one speed is given up for its ends, which are what the record holds.
  by_cases hvariable : p.map.isVariable = true
  · have hmap : p.reloaded.map = p.map := if_pos hvariable
    have hends : p.reloaded.start = p.start ∧ p.reloaded.stop = p.stop ∧
        p.reloaded.speed = p.speed := by
      unfold start stop speed
      rw [hmap]
      exact ⟨rfl, rfl, rfl⟩
    exact ⟨hends.1, hends.2.1, hends.2.2, rfl, rfl, rfl, rfl, fun _ => hmap,
      fun h => absurd hvariable (by rw [h]; nofun)⟩
  · have hmap : p.reloaded.map = .plain p.start p.stop p.speed := if_neg hvariable
    have hends : p.reloaded.start = p.start ∧ p.reloaded.stop = p.stop ∧
        p.reloaded.speed = p.speed := by
      unfold start stop speed
      rw [hmap]
      exact ⟨rfl, rfl, rfl⟩
    refine ⟨hends.1, hends.2.1, hends.2.2, rfl, rfl, rfl, rfl, fun h => ?_, fun _ => ?_⟩
    · rw [hmap]
      exact (SpeedMap.eq_plain hp.sound (Bool.eq_false_iff.mpr hvariable)
        (h.resolve_left hvariable)).symm
    · rw [hmap]
      rfl

/-- What was loaded is saved as before. -/
theorem Stored.members_reloaded {depth : Nat} {p : Pair Float} (hp : p.Stored depth) :
    p.reloaded.members = p.members := by
  have hsame := hp.reloads
  -- The points are written for maps that vary, so those
  -- that were given up were not in the record.
  have hpoints : p.reloaded.toRecord.points = p.toRecord.points := by
    unfold toRecord
    dsimp only
    by_cases hvariable : p.map.isVariable = true
    · rw [hsame.map (Or.inl hvariable)]
    · have hmap : p.reloaded.map = .plain p.start p.stop p.speed := if_neg hvariable
      have hspeed : p.speed.isFinite = true :=
        (Bool.and_eq_true_iff.mp (hp.sound.speed p.map.first List.mem_cons_self)).1
      rw [hmap, isVariable_plain hspeed, if_neg hvariable]
      rfl
  have hrecord : p.reloaded.toRecord = p.toRecord := by
    unfold toRecord at hpoints ⊢
    rw [PairRecord.mk.injEq]
    exact ⟨hsame.start, hsame.stop, hsame.crop, hsame.speed, hsame.overrides, hpoints, hsame.loop,
      congrArg some hsame.playTime⟩
  unfold members
  rw [hrecord]

end Pair

namespace Markers

/-- A document that can be written and read again. -/
structure Writable (d : Markers Float) : Prop where
  settings : d.settings.Stored 1
  extra : ∀ m ∈ d.settings.extra, m.1 ∉ (shape (α := Float)).names
  pairs : ∀ p ∈ d.pairs, p.Writable 2

/-- A document as it is after it has been read. -/
structure Stored (d : Markers Float) : Prop where
  settings : d.settings.Stored 1
  extra : ∀ m ∈ d.settings.extra, m.1 ∉ (shape (α := Float)).names
  pairs : ∀ p ∈ d.pairs, p.Stored 2

theorem Stored.writable {d : Markers Float} (hd : d.Stored) : d.Writable :=
  ⟨hd.settings, hd.extra, fun p hp => (hd.pairs p hp).toWritable⟩

/-- What is read of a document before it is known to list pairs: whatever is
    listed has been read. -/
structure DraftStored (d : MarkersDraft Float) : Prop where
  pairs : ∀ ps ∈ d.pairs, ∀ p ∈ ps, p.Stored 2
  oldPairs : ∀ ps ∈ d.oldPairs, ∀ p ∈ ps, p.Stored 2

theorem upholds_stored : (shape (α := Float)).Upholds 1 DraftStored := by
  refine ⟨⟨nofun, nofun⟩, fun f hf v d d' hv hd h => ?_⟩
  -- Pairs are read with the same reader under either key.
  have hlist : ∀ {ps? : Option (List (Pair Float))},
      readOption (readList (Pair.read .text)) v = .ok ps? →
        ∀ ps ∈ ps?, ∀ p ∈ ps, p.Stored 2 := by
    intro ps? h ps hps p hp
    have hread := mem_readOption h ps hps
    unfold readList at hread
    split at hread
    · rcases exists_of_mem_right (mapM_ok_iff.mp hread) hp with ⟨u, hu, hread⟩
      exact Pair.read_stored (hv.items u hu) hread
    · cases hread
  simp only [shape, List.mem_cons, List.not_mem_nil, or_false] at hf
  rcases hf with rfl | rfl | rfl | rfl
  all_goals rcases bind_ok_iff.mp h with ⟨x, hx, ⟨⟩⟩
  · exact { hd with }
  · exact { hd with }
  · exact { hd with pairs := hlist hx }
  · exact { hd with oldPairs := hlist hx }

end Markers

/-- A text with a member of the given name and value. -/
def Holds (text : String) (m : String × Json Float) : Prop :=
  ∃ ms u, (Source.parse text).1 = .object ms ∧ (.ok m.1, u) ∈ ms ∧ u.value = .ok m.2

namespace Markers

/-- What is read of a text is a stored document, and the text holds what the
    document keeps. -/
theorem parse_stored {text : String} {d : Markers Float} (h : parse text = .ok d) :
    d.Stored ∧ ∀ m ∈ d.settings.extra, Holds text m := by
  unfold parse readDocument at h
  have hfits := Source.fits_parse text
  unfold Holds
  generalize Source.parse text = parsed at h hfits ⊢
  obtain ⟨v, flaw⟩ := parsed
  rcases bind_ok_iff.mp h with ⟨d', hread, hd⟩
  have hd : d' = d := by
    cases flaw with
    | none => exact Except.ok.inj hd
    | some cause => cases hd
  subst hd
  unfold read at hread
  rcases bind_ok_iff.mp hread with ⟨⟨draft, rest⟩, hopen, hrecord⟩
  rcases Shape.readOpen_upholds upholds_stored hfits hopen with ⟨ms, rfl, hdraft, hrest⟩
  rcases bind_ok_iff.mp hrecord with ⟨s, hs, hpairs⟩
  rcases Settings.ofMembers_stored (fun m hm => hfits.members m (hrest m hm).1) hs with
    ⟨hsettings, hextra⟩
  split at hpairs
  · next ps hps =>
      cases hpairs
      -- The settings are made of the members that the document left over.
      refine ⟨⟨hsettings, fun n hn => ?_, ?_⟩, fun n hn => ?_⟩
      · rcases hextra n hn with ⟨m, hm, hkey, -⟩
        rcases (hrest m hm).2 with ⟨k, hk, hunknown⟩
        rw [hkey] at hk
        cases hk
        exact hunknown
      · rcases Option.or_eq_some_iff.mp hps with hps | ⟨-, hps⟩
        · exact hdraft.pairs ps hps
        · exact hdraft.oldPairs ps hps
      · rcases hextra n hn with ⟨m, hm, hkey, hvalue⟩
        refine ⟨ms, m.2, rfl, ?_, hvalue⟩
        rw [← hkey]
        exact (hrest m hm).1
  · cases hpairs

/-- The document with the pairs that its records make. -/
def returned (d : Markers Float) : Markers Float :=
  { d with pairs := d.pairs.map Pair.returned }

/-- What comes back of a document that was read before. -/
def reloaded (d : Markers Float) : Markers Float :=
  { d with pairs := d.pairs.map Pair.reloaded }

theorem Stored.returned_eq {d : Markers Float} (hd : d.Stored) : d.returned = d.reloaded := by
  unfold returned reloaded
  rw [List.map_congr_left fun p hp => (hd.pairs p hp).returned_eq]

theorem names_nodup : (shape (α := Float)).names.Nodup := by decide

variable {d : Markers Float}

/-- The numbered pairs of a document come back without their numbers. -/
theorem Writable.returns_pairs (hd : d.Writable) :
    Returns (fun _ => True) 1 (readList (Pair.read .text))
      (.array (d.pairs.zipIdx.map fun (p, i) => numbered p i)) d.returned.pairs := by
  have hlist : Returns (fun _ => True) 1 (readList (Pair.read .text))
      (.array (d.pairs.zipIdx.map fun (p, i) => numbered p i))
      (d.pairs.zipIdx.map fun c => c.1.returned) :=
    returns_list (by decide) fun c hc =>
      (hd.pairs c.1 (List.fst_mem_of_mem_zipIdx hc)).returns c.2 (by decide)
  -- The number of a pair is written and not read, so the list comes back without it.
  have hpairs : d.pairs.zipIdx.map (fun c => c.1.returned) = d.returned.pairs := by
    have hfst := List.zipIdx_map_fst 0 d.pairs
    change _ = d.pairs.map Pair.returned
    conv_rhs => rw [← hfst, List.map_map]
    rfl
  exact hpairs ▸ hlist

/-- The members that a document is written as. -/
def members (d : Markers Float) : List (String × Json Float) :=
  d.settings.members ++ (Json.member? "version" (d.version.map .string) ++
    (Json.member? "modified" (d.modified.map .string) ++
      [("markerPairs", .array (d.pairs.zipIdx.map fun (p, i) => numbered p i))]))

theorem toJson_eq (d : Markers Float) : d.toJson = .object d.members := by
  unfold toJson members
  rw [List.append_assoc, List.append_assoc]

/-- The members of a document make the document, and the settings are passed
    on. -/
theorem Writable.takes (hd : d.Writable) :
    (shape (α := Float)).Takes (fun _ => True) 1 shape.fields shape.blank d.members
      ⟨d.version, d.modified, some d.returned.pairs, none⟩ d.settings.members := by
  -- Neither settings nor options nor what is kept go by a name of the document.
  have hunknown : ∀ m ∈ d.settings.members, m.1 ∉ (shape (α := Float)).names ∧
      m.2.Fits (fun _ => True) 1 := by
    have hsettings : ∀ k ∈ (Settings.shape (α := Float)).names, k ∉ (shape (α := Float)).names := by
      decide
    have hoptions : ∀ k ∈ (Options.shape (α := Float) LoopMode.readKept).names,
        k ∉ (shape (α := Float)).names := by decide
    intro m hm
    rcases hd.settings.members_named (by decide) m hm with ⟨hfits, hname⟩
    refine ⟨?_, hfits.imp fun _ _ => trivial⟩
    rcases hname with hname | hname | hm
    · exact hsettings m.1 hname
    · exact hoptions m.1 hname
    · exact hd.extra m hm
  have hend : (shape (α := Float)).Takes (fun _ => True) 1 shape.fields shape.blank
      (Json.member? "version" (d.version.map .string) ++
        (Json.member? "modified" (d.modified.map .string) ++
          [("markerPairs", .array (d.pairs.zipIdx.map fun (p, i) => numbered p i))]))
      ⟨d.version, d.modified, some d.returned.pairs, none⟩ [] :=
    .option (fun _ _ => rfl) rfl rfl nofun (fun t _ => returns_text t) <|
      .option (fun _ _ => rfl) rfl rfl nofun (fun t _ => returns_text t) <|
        .present (fun _ _ => rfl) (hd.returns_pairs.optional nofun) <|
          .done (List.forall_mem_singleton.mpr rfl)
  have hall := hend.unknowns hunknown
  rwa [List.append_nil] at hall

/-- The structure of the text of a document. -/
theorem Writable.parse_source (hd : d.Writable) (hreals : d.toJson.Faithful) :
    Source.parse d.text = (d.toJson.source, none) := by
  have hfits : d.toJson.Fits (fun _ => True) 0 := by
    rw [toJson_eq]
    exact .object (by decide) hd.takes.fits
  exact Source.parse_pretty hfits hreals

/-- A document comes back from its structure. -/
theorem Writable.read_source (hd : d.Writable) (hreals : d.toJson.Faithful) :
    read d.toJson.source = .ok d.returned := by
  have hfits : ∀ m ∈ d.settings.members, m.2.Fits Json.InRange 1 :=
    fun m hm => (hd.settings.members_named (by decide) m hm).1
  rw [toJson_eq] at hreals ⊢
  have hsettings : ∀ m ∈ d.settings.members, m.2.Faithful :=
    fun m hm => hreals.member (hd.takes.rest_subset m hm)
  refine bind_ok_iff.mpr ⟨_, hd.takes.readOpen names_nodup hfits hreals, ?_⟩
  exact bind_ok_iff.mpr ⟨_, hd.settings.ofMembers_source (by decide) hsettings, rfl⟩

/-- A document comes back from its text. -/
theorem Writable.parse_text (hd : d.Writable) (hreals : d.toJson.Faithful) :
    parse d.text = .ok d.returned := by
  unfold parse readDocument
  rw [hd.parse_source hreals]
  exact bind_ok_iff.mpr ⟨_, hd.read_source hreals, rfl⟩

/-- A document that was read before comes back. -/
theorem Stored.parse_text (hd : d.Stored) (hreals : d.toJson.Faithful) :
    parse d.text = .ok d.reloaded := by
  rw [hd.writable.parse_text hreals, hd.returned_eq]

/-- The text of a document holds what the document keeps. -/
theorem Stored.holds (hd : d.Stored) (hreals : d.toJson.Faithful) {m : String × Json Float}
    (hm : m ∈ d.settings.extra) : Holds d.text m := by
  have hmember : m ∈ d.members := hd.writable.takes.rest_subset m (List.mem_append_right _ hm)
  unfold Holds
  rw [hd.writable.parse_source hreals]
  rw [toJson_eq] at hreals ⊢
  rw [Json.source]
  exact ⟨_, m.2.source, rfl, Json.mem_sourceMembers hmember,
    Source.value_source (hd.settings.kept m hm) (hreals.member hmember)⟩

/-- What was loaded is saved as before. -/
theorem Stored.text_reloaded (hd : d.Stored) : d.reloaded.text = d.text := by
  -- Pair by pair the record is the same, though the map may not be.
  have hpairs : (d.reloaded.pairs.zipIdx.map fun (p, i) => numbered p i) =
      d.pairs.zipIdx.map fun (p, i) => numbered p i := by
    change ((d.pairs.map Pair.reloaded).zipIdx.map _) = _
    rw [List.zipIdx_map, List.map_map]
    refine List.map_congr_left fun c hc => ?_
    have hmembers := (hd.pairs c.1 (List.fst_mem_of_mem_zipIdx hc)).members_reloaded
    exact congrArg (fun ms => Json.object (("number", .nat (c.2 + 1)) :: ms)) hmembers
  have hjson : d.reloaded.toJson = d.toJson := by
    rw [toJson_eq, toJson_eq]
    unfold members
    rw [hpairs]
    rfl
  exact congrArg Json.pretty hjson

end Markers

/-- A document that was read is read again from its own text as the same
    document: the version, the time, the settings with all that was given
    without being interpreted, and one pair for each, which differs in no more
    than the points of a map of one speed. Its text is then the same. What was
    not interpreted stands in the text that was read, and in the one that is
    written. -/
theorem reload_is_lossless (text : String) (d : Markers Float) (hread : Markers.parse text = .ok d)
    (hreals : ∀ x ∈ d.toJson.reals, x.isFinite = true → Rereads x) :
    ∃ e, Markers.parse d.text = .ok e ∧ e.version = d.version ∧ e.modified = d.modified ∧
      e.settings = d.settings ∧ List.Forall₂ Pair.Reloads d.pairs e.pairs ∧ e.text = d.text ∧
      ∀ m ∈ d.settings.extra, Holds text m ∧ Holds d.text m := by
  rcases Markers.parse_stored hread with ⟨hd, hholds⟩
  refine ⟨d.reloaded, hd.parse_text hreals, rfl, rfl, rfl, ?_, hd.text_reloaded, fun m hm => ?_⟩
  · exact List.forall₂_map_right_iff.mpr
      (List.forall₂_same.mpr fun p hp => (hd.pairs p hp).reloads)
  · exact ⟨hholds m hm, hd.holds hreals hm⟩

/-- A document with a value that is not interpreted, and with a pair whose map
    has a point that it could do without. -/
def notedText : String :=
  "\x7b\"note\":\x7b\"b\":[1,null],\"a\":\"x\"\x7d," ++
    "\"markerPairs\":[\x7b\"start\":1,\"end\":3,\"speedMap\":[" ++
    "\x7b\"x\":1,\"y\":1\x7d,\x7b\"x\":2,\"y\":1\x7d,\x7b\"x\":3,\"y\":1\x7d]\x7d]\x7d"

/-- The value stays, and the point does not. -/
theorem reload_is_lossless_noted :
    ∃ d e : Markers Float, Markers.parse notedText = .ok d ∧ Markers.parse d.text = .ok e ∧
      d.settings.extra.map Prod.fst = ["note"] ∧ e.settings = d.settings ∧
      (d.pairs.map fun p => p.map.points.length) = [3] ∧
      (e.pairs.map fun p => p.map.points.length) = [2] ∧ e.text = d.text := by
  -- What there is to know of the document is read off one run of the reader.
  have hrun : ((Markers.parse notedText).toOption.map fun d : Markers Float =>
      (d.toJson.reals, d.settings.extra.map Prod.fst,
        d.pairs.map fun p => (p.map.points.length, p.map.isVariable))) =
      some ([1.0, 1.0, 3.0, 1.0, 2.0], ["note"], [(3, false)]) := by decide +kernel
  rcases Option.map_eq_some_iff.mp hrun with ⟨d, hd, hfacts⟩
  rcases Prod.mk.inj hfacts with ⟨hreals, hfacts⟩
  rcases Prod.mk.inj hfacts with ⟨hextra, hpairs⟩
  have hread : Markers.parse notedText = .ok d := by
    cases hparse : (Markers.parse notedText : Except (DocumentError Float) (Markers Float)) with
    | error e => rw [hparse] at hd; cases hd
    | ok d' => rw [hparse] at hd; cases hd; rfl
  -- All five numbers are short enough to be spelled as they are.
  have hback : ∀ x ∈ d.toJson.reals, x.isFinite = true → Rereads x := by
    rw [hreals]
    decide +kernel
  rcases reload_is_lossless notedText d hread hback with
    ⟨e, he, -, -, hsettings, hsame, htext, -⟩
  rcases List.map_eq_singleton_iff.mp hpairs with ⟨p, hp, hmap⟩
  rcases Prod.mk.inj hmap with ⟨hthree, hconstant⟩
  rw [hp] at hsame
  rcases List.forall₂_cons_left_iff.mp hsame with ⟨q, qs, hq, hnil, heq⟩
  rw [List.forall₂_nil_left_iff.mp hnil] at heq
  refine ⟨d, e, hread, he, hextra, hsettings, ?_, ?_, htext⟩
  · rw [hp, List.map_singleton, hthree]
  · rw [heq, List.map_singleton, hq.plain hconstant]
    rfl

end Retime
