import Retime.Document.Options
import Retime.Proofs.CropText
import Retime.Proofs.WrittenRecords

/-!
# Stored Options

Options, filters and settings come back.

After they have been read, their scalars are finite and what they keep without
interpreting it is a map under names that are not their own. `Stored` says so,
and it is what is needed for the way back: a finite scalar has a form, and a
name that is not known is passed on instead of being set.

Settings are read in two steps from what the document does not know, and each
step leaves the rest to the next. So their members are gone through twice, once
by the shape of settings and once by that of options.

## Main definitions

* `FilterPreset.Stored`, `Options.Stored`, `Settings.Stored`: What holds after
  reading.

## Theorems

* `returns_real`, `returns_text`, …: Simple values come back.
* `FilterPreset.read_stored`, `Options.upholds_stored`,
  `Settings.ofMembers_stored`: What is read is stored.
* `FilterPreset.Stored.returns`: A stored filter comes back.
* `Options.Stored.takes`: The members of stored options make the options.
* `Settings.Stored.ofMembers_source`: Stored settings come back.
-/

namespace Retime

variable {W : Int → Prop} {depth : Nat}

theorem mem_readOption {β : Type} {read : Source → Except (DocumentError Float) β} {v : Source}
    {o : Option β} (h : readOption read v = .ok o) : ∀ b ∈ o, read v = .ok b := by
  unfold readOption at h
  split at h
  · cases h
    exact nofun
  · rcases map_ok_iff.mp h with ⟨b, hb, rfl⟩
    rintro _ ⟨⟩
    exact hb

/-! ### Simple values -/

theorem isFinite_of_readReal {v : Source} {x : Float} (h : readReal v = .ok x) :
    x.isFinite = true := by
  unfold readReal at h
  dsimp only at h
  cases v with
  | number s =>
      dsimp only at h
      split at h
      · next n hn =>
          cases h
          exact Spelling.number?_isFinite hn
      · cases h
  | _ => cases h

theorem returns_real {x : Float} (hx : x.isFinite = true) :
    Returns W depth readReal (.number (.real x)) x where
  fits := .real
  back hreals := by
    rcases Source.value_real hx (hreals.real hx) with ⟨s, hsource, hs⟩
    rw [hsource]
    unfold readReal
    dsimp only
    rw [hs]
    rfl

theorem returns_text (s : String) : Returns W depth readText (.string s) s where
  fits := .string
  back _ := by rw [Json.source]; rfl

theorem returns_bool (b : Bool) : Returns W depth readBool (.bool b) b where
  fits := .bool
  back _ := by rw [Json.source]; rfl

theorem readNat_number {limit : Nat} {expected : String} {s : Spelling} {n : Nat}
    (hs : s.number? = some (Number.whole n : Number Float)) (h : n ≤ limit) :
    (readNat limit expected (.number s) : Except (DocumentError Float) Nat) = .ok n := by
  unfold readNat
  dsimp only
  rw [hs]
  exact if_pos ⟨Int.natCast_nonneg n, Int.ofNat_le.mpr h⟩

theorem returns_nat {limit n : Nat} (hlimit : limit < UInt64.size) (h : n ≤ limit)
    (expected : String) : Returns Json.InRange depth (readNat limit expected) (.nat n) n := by
  have hrange : Json.InRange n :=
    ⟨Int.le_trans (by decide) (Int.natCast_nonneg n),
      Int.ofNat_lt.mpr (Nat.lt_of_le_of_lt h hlimit)⟩
  refine ⟨.whole hrange, fun _ => ?_⟩
  rw [Json.nat, Json.source]
  exact readNat_number (Spelling.number?_ofInt hrange) h

theorem returns_byte (n : UInt8) : Returns Json.InRange depth readByte (.nat n.toNat) n := by
  have hnat := @returns_nat depth 255 n.toNat (by decide) (Nat.le_of_lt_succ n.toNat_lt) "u8"
  refine ⟨hnat.fits, fun hreals => ?_⟩
  unfold readByte
  rw [hnat.back hreals]
  exact congrArg Except.ok UInt8.ofNat_toNat

theorem returns_word (n : UInt32) : Returns Json.InRange depth readWord (.nat n.toNat) n := by
  have hnat := @returns_nat depth (UInt32.size - 1) n.toNat (by decide)
    (Nat.le_of_lt_succ n.toNat_lt) "u32"
  refine ⟨hnat.fits, fun hreals => ?_⟩
  unfold readWord
  rw [hnat.back hreals]
  exact congrArg Except.ok UInt32.ofNat_toNat

theorem returns_crop (c : Crop) : Returns W depth Crop.read (.string c.text) c where
  fits := .string
  back _ := by
    rw [Json.source]
    unfold Crop.read
    refine bind_ok_iff.mpr ⟨c.text, rfl, ?_⟩
    rw [Crop.parse_text]
    rfl

/-! ### Choices -/

theorem returns_loopMode (m : LoopMode) : Returns W depth LoopMode.readText (.string m.name) m where
  fits := .string
  back _ := by
    rw [Json.source]
    cases m <;> rfl

theorem returns_loopMode_kept (m : LoopMode) :
    Returns W depth LoopMode.readKept (.string m.name) m where
  fits := .string
  back _ := by
    rw [Json.source]
    cases m <;> rfl

/-! ### Filters -/

namespace FilterPreset

/-- A filter whose parameters are a map of kept values, under names that are
    not its own. -/
structure Stored (depth : Nat) (p : FilterPreset Float) : Prop where
  sorted : Json.Sorted p.parameters
  kept : ∀ m ∈ p.parameters, m.1 ∉ (shape (α := Float)).names ∧ m.2.Kept depth

theorem read_stored {v : Source} (hv : v.Fits depth) {p : FilterPreset Float}
    (h : read v = .ok p) : p.Stored (depth + 1) := by
  unfold read at h
  rcases bind_ok_iff.mp h with ⟨⟨q, rest⟩, hopen, h⟩
  rcases bind_ok_iff.mp h with ⟨kept, hkept, h⟩
  cases h
  rcases Shape.readOpen_upholds Shape.upholds_nothing hv hopen with ⟨ms, rfl, -, hrest⟩
  rcases readRest_kept (fun m hm => hv.members m (hrest m hm).1) hkept with ⟨hsorted, hall⟩
  refine ⟨hsorted, fun n hn => ?_⟩
  -- What is kept was passed over by the shape, so its key is none of those that are read.
  rcases hall n hn with ⟨hn, m, hm, hkey, -⟩
  rcases (hrest m hm).2 with ⟨k, hk, hunknown⟩
  rw [hkey] at hk
  cases hk
  exact ⟨hunknown, hn⟩

theorem names_nodup : (shape (α := Float)).names.Nodup := by decide

theorem Stored.returns {p : FilterPreset Float} (hp : p.Stored (depth + 1))
    (hdepth : depth < Source.maxDepth) : Returns Json.InRange depth read p.toJson p := by
  -- The two fields stand in front of the parameters, which the shape passes over.
  have htakes : (shape (α := Float)).Takes Json.InRange (depth + 1) shape.fields shape.blank
      (("enabled", .bool p.enabled) :: ("desc", .string p.description) :: p.parameters)
      ⟨p.enabled, p.description, []⟩ p.parameters :=
    .present (fun _ _ => rfl) (returns_bool p.enabled) <|
      .present (fun _ _ => rfl) (returns_text p.description) <|
        .passed fun m hm => ⟨(hp.kept m hm).1, (hp.kept m hm).2.fits⟩
  refine ⟨.object hdepth htakes.fits, fun hreals => ?_⟩
  refine bind_ok_iff.mpr ⟨_, htakes.readOpen names_nodup
    (fun m hm => (hp.kept m hm).2.fits) hreals, ?_⟩
  have hrest := readRest_source hp.sorted (fun m hm => (hp.kept m hm).2) fun m hm =>
    hreals.member (List.mem_cons_of_mem _ (List.mem_cons_of_mem _ hm))
  exact bind_ok_iff.mpr ⟨_, hrest, rfl⟩

end FilterPreset

/-! ### Options -/

namespace Options

variable {readLoop : Source → Except (DocumentError Float) LoopMode}

/-- Options whose scalars are finite and whose filters are stored, as they are
    after they have been read among members at a depth. -/
structure Stored (depth : Nat) (o : Options Float) : Prop where
  gamma : ∀ x ∈ o.gamma, x.isFinite = true
  denoise : ∀ p ∈ o.denoise, p.Stored (depth + 1)
  stabilization : ∀ p ∈ o.stabilization, p.Stored (depth + 1)
  speedRounding : ∀ x ∈ o.speedRounding, x.isFinite = true
  fadeDuration : ∀ x ∈ o.fadeDuration, x.isFinite = true

theorem stored_empty : Stored depth Options.empty :=
  ⟨nofun, nofun, nofun, nofun, nofun⟩

/-- Options that are read are stored. -/
theorem upholds_stored : (shape readLoop).Upholds depth (Stored depth) := by
  refine ⟨stored_empty, fun f hf v o o' hv ho h => ?_⟩
  have hreal : ∀ {x? : Option Float}, readOption readReal v = .ok x? →
      ∀ x ∈ x?, x.isFinite = true :=
    fun h x hx => isFinite_of_readReal (mem_readOption h x hx)
  have hfilter : ∀ {p? : Option (FilterPreset Float)}, readOption FilterPreset.read v = .ok p? →
      ∀ p ∈ p?, p.Stored (depth + 1) :=
    fun h p hp => FilterPreset.read_stored hv (mem_readOption h p hp)
  -- Nothing is asked of the other members, so they leave everything in place.
  simp only [shape, List.mem_cons, List.not_mem_nil, or_false] at hf
  rcases hf with rfl | rfl | rfl | rfl | rfl | rfl | rfl | rfl | rfl | rfl | rfl | rfl | rfl | rfl
  all_goals rcases bind_ok_iff.mp h with ⟨x, hx, ⟨⟩⟩
  · exact { ho with }
  · exact { ho with gamma := hreal hx }
  · exact { ho with }
  · exact { ho with }
  · exact { ho with }
  · exact { ho with }
  · exact { ho with }
  · exact { ho with }
  · exact { ho with denoise := hfilter hx }
  · exact { ho with stabilization := hfilter hx }
  · exact { ho with }
  · exact { ho with speedRounding := hreal hx }
  · exact { ho with }
  · exact { ho with fadeDuration := hreal hx }

theorem names_eq : (shape readLoop).names = (shape (α := Float) LoopMode.readText).names := rfl

theorem names_nodup : (shape readLoop).names.Nodup := by
  rw [names_eq]
  decide

/-- The members of options make the options, in front of others. -/
theorem Stored.takes {o : Options Float} (ho : o.Stored depth) (hdepth : depth < Source.maxDepth)
    (hnull : ∀ m, readLoop .null ≠ .ok m)
    (hloop : ∀ m : LoopMode, Returns Json.InRange depth readLoop (.string m.name) m)
    {ns : List (String × Json Float)}
    (hns : ∀ m ∈ ns, m.1 ∉ (shape readLoop).names ∧ m.2.Fits Json.InRange depth) :
    (shape readLoop).Takes Json.InRange depth (shape readLoop).fields .empty (o.members ++ ns) o
      ns := by
  have hreal : ∀ {x? : Option Float}, (∀ x ∈ x?, x.isFinite = true) →
      ∀ x ∈ x?, Returns Json.InRange depth readReal (.number (.real x)) x :=
    fun h x hx => returns_real (h x hx)
  have hfilter : ∀ {p? : Option (FilterPreset Float)}, (∀ p ∈ p?, p.Stored (depth + 1)) →
      ∀ p ∈ p?, Returns Json.InRange depth FilterPreset.read p.toJson p :=
    fun h p hp => (h p hp).returns hdepth
  unfold members
  simp only [List.append_assoc]
  -- What has been set is brought into normal form at each step. Left alone, every step would hold
  -- the one before it once for each field.
  refine .option (fun _ _ => rfl) rfl rfl nofun (fun s _ => returns_text s) ?_
  refine .option (fun _ _ => rfl) rfl rfl nofun (hreal ho.gamma) ?_
  dsimp only
  refine .option (fun _ _ => rfl) rfl rfl nofun (fun n _ => returns_byte n) ?_
  dsimp only
  refine .option (fun _ _ => rfl) rfl rfl nofun (fun n _ => returns_byte n) ?_
  dsimp only
  refine .option (fun _ _ => rfl) rfl rfl nofun (fun n _ => returns_word n) ?_
  dsimp only
  refine .option (fun _ _ => rfl) rfl rfl nofun (fun b _ => returns_bool b) ?_
  dsimp only
  refine .option (fun _ _ => rfl) rfl rfl nofun (fun b _ => returns_bool b) ?_
  dsimp only
  refine .option (fun _ _ => rfl) rfl rfl nofun (fun b _ => returns_bool b) ?_
  dsimp only
  refine .option (fun _ _ => rfl) rfl rfl nofun (hfilter ho.denoise) ?_
  dsimp only
  refine .option (fun _ _ => rfl) rfl rfl nofun (hfilter ho.stabilization) ?_
  dsimp only
  refine .option (fun _ _ => rfl) rfl rfl nofun (fun b _ => returns_bool b) ?_
  dsimp only
  refine .option (fun _ _ => rfl) rfl rfl nofun (hreal ho.speedRounding) ?_
  dsimp only
  refine .option (fun _ _ => rfl) rfl rfl hnull (fun m _ => hloop m) ?_
  dsimp only
  exact .option (fun _ _ => rfl) rfl rfl nofun (hreal ho.fadeDuration) (.passed hns)

end Options

/-! ### Settings -/

namespace Settings

/-- Settings as they are after they have been read among members at a depth:
    the new speed is finite, the options are stored, and what is kept besides
    is a map under names that neither settings nor options have. -/
structure Stored (depth : Nat) (s : Settings Float) : Prop where
  newSpeed : s.newSpeed.isFinite = true
  options : s.options.Stored depth
  sorted : Json.Sorted s.extra
  unknown : ∀ m ∈ s.extra, m.1 ∉ (shape (α := Float)).names ∧
    m.1 ∉ (Options.shape (α := Float) LoopMode.readKept).names
  kept : ∀ m ∈ s.extra, m.2.Kept depth

theorem upholds_newSpeed :
    (shape (α := Float)).Upholds depth fun s => s.newSpeed.isFinite = true := by
  refine ⟨by decide, fun f hf v s s' hv hs h => ?_⟩
  simp only [shape, List.mem_cons, List.not_mem_nil, or_false] at hf
  rcases hf with rfl | rfl | rfl | rfl | rfl | rfl | rfl | rfl | rfl
  all_goals rcases bind_ok_iff.mp h with ⟨x, hx, ⟨⟩⟩
  case inr.inr.inr.inr.inl => exact isFinite_of_readReal hx
  all_goals exact hs

/-- Settings that are read are stored, and what they keep stands among the
    members they are read from. -/
theorem ofMembers_stored {ms : List Source.Member} (hms : ∀ m ∈ ms, m.2.Fits depth)
    {s : Settings Float} (h : ofMembers ms = .ok s) :
    s.Stored depth ∧ ∀ n ∈ s.extra, ∃ m ∈ ms, m.1 = .ok n.1 ∧ m.2.value = .ok n.2 := by
  unfold ofMembers at h
  rcases bind_ok_iff.mp h with ⟨⟨t, rest⟩, hread, h⟩
  rcases Shape.readMembers_upholds upholds_newSpeed hms hread with ⟨hspeed, hrest⟩
  unfold complete at h
  rcases bind_ok_iff.mp h with ⟨⟨o, rest'⟩, hread', h⟩
  rcases bind_ok_iff.mp h with ⟨kept, hkept, h⟩
  cases h
  rcases Shape.readMembers_upholds Options.upholds_stored
    (fun m hm => hms m (hrest m hm).1) hread' with ⟨hoptions, hrest'⟩
  rcases readRest_kept (fun m hm => hms m (hrest m (hrest' m hm).1).1) hkept with ⟨hsorted, hall⟩
  -- What is kept was left over twice, and both times by its name.
  have hsource : ∀ n ∈ kept, n.1 ∉ (shape (α := Float)).names ∧
      n.1 ∉ (Options.shape (α := Float) LoopMode.readKept).names ∧
      ∃ m ∈ ms, m.1 = .ok n.1 ∧ m.2.value = .ok n.2 := by
    intro n hn
    rcases (hall n hn).2 with ⟨m, hm, hkey, hvalue⟩
    rcases (hrest' m hm).2 with ⟨k, hk, hoption⟩
    rcases (hrest m (hrest' m hm).1).2 with ⟨k', hk', hsetting⟩
    rw [hkey] at hk hk'
    cases hk
    cases hk'
    exact ⟨hsetting, hoption, m, (hrest m (hrest' m hm).1).1, hkey, hvalue⟩
  exact ⟨⟨hspeed, hoptions, hsorted, fun n hn => ⟨(hsource n hn).1, (hsource n hn).2.1⟩,
    fun n hn => (hall n hn).1⟩, fun n hn => (hsource n hn).2.2⟩

theorem names_nodup : (shape (α := Float)).names.Nodup := by decide

variable {s : Settings Float}

/-- The members of options make the options, and what is kept besides is
    passed on. -/
theorem Stored.takes_options (hs : s.Stored depth) (hdepth : depth < Source.maxDepth) :
    (Options.shape (α := Float) LoopMode.readKept).Takes Json.InRange depth
      (Options.shape LoopMode.readKept).fields .empty (s.options.members ++ s.extra) s.options
      s.extra :=
  hs.options.takes hdepth (fun _ h => by cases h) returns_loopMode_kept
    fun m hm => ⟨(hs.unknown m hm).2, (hs.kept m hm).fits⟩

/-- The members of settings make the settings, without the options and what is
    kept besides. -/
theorem Stored.takes_settings (hs : s.Stored depth) (hdepth : depth < Source.maxDepth) :
    (shape (α := Float)).Takes Json.InRange depth shape.fields .initial s.members
      { s with options := .empty, extra := [] } (s.options.members ++ s.extra) := by
  have hoptions := hs.takes_options hdepth
  -- Options do not go by the names of settings, so they are left for later.
  have hunknown : ∀ m ∈ s.options.members ++ s.extra,
      m.1 ∉ (shape (α := Float)).names ∧ m.2.Fits Json.InRange depth := by
    have hapart : ∀ k ∈ (Options.shape (α := Float) LoopMode.readKept).names,
        k ∉ (shape (α := Float)).names := by decide
    refine fun m hm => ⟨?_, hoptions.fits m hm⟩
    rcases hoptions.keys m hm with hkey | hm
    · exact hapart m.1 hkey
    · exact (hs.unknown m hm).1
  unfold members
  simp only [List.append_assoc, List.cons_append, List.nil_append]
  refine .option (fun _ _ => rfl) rfl rfl nofun (fun t _ => returns_text t) ?_
  refine .option (fun _ _ => rfl) rfl rfl nofun (fun t _ => returns_text t) ?_
  dsimp only
  refine .option (fun _ _ => rfl) rfl rfl nofun (fun t _ => returns_text t) ?_
  dsimp only
  refine .present (fun _ _ => rfl) (returns_bool s.isVertical) ?_
  dsimp only
  refine .present (fun _ _ => rfl) (returns_real hs.newSpeed) ?_
  dsimp only
  refine .present (fun _ _ => rfl) (returns_crop s.newCrop) ?_
  dsimp only
  refine .present (fun _ _ => rfl) (returns_word s.resolution.width) ?_
  dsimp only
  refine .present (fun _ _ => rfl) (returns_word s.resolution.height) ?_
  dsimp only
  exact .present (fun _ _ => rfl) (returns_text s.mergeList) (.passed hunknown)

/-- The members of settings are theirs, those of options, or kept besides. -/
theorem Stored.members_named (hs : s.Stored depth) (hdepth : depth < Source.maxDepth) :
    ∀ m ∈ s.members, m.2.Fits Json.InRange depth ∧ (m.1 ∈ (shape (α := Float)).names ∨
      m.1 ∈ (Options.shape (α := Float) LoopMode.readKept).names ∨ m ∈ s.extra) :=
  fun m hm => ⟨(hs.takes_settings hdepth).fits m hm,
    ((hs.takes_settings hdepth).keys m hm).imp_right ((hs.takes_options hdepth).keys m)⟩

/-- Written settings come back, from whatever members stand around them. -/
theorem Stored.ofMembers_source (hs : s.Stored depth) (hdepth : depth < Source.maxDepth)
    (hreals : ∀ m ∈ s.members, m.2.Faithful) :
    ofMembers (Json.sourceMembers s.members) = .ok s := by
  -- The options are read from what the settings have passed over, and the rest from
  -- what is left then.
  have hsub : ∀ m ∈ s.options.members ++ s.extra, m.2.Faithful := by
    intro m hm
    refine hreals m ?_
    unfold members
    rw [List.append_assoc]
    exact List.mem_append_right _ hm
  refine bind_ok_iff.mpr
    ⟨_, (hs.takes_settings hdepth).readMembers_passOver names_nodup hreals, ?_⟩
  refine bind_ok_iff.mpr
    ⟨_, (hs.takes_options hdepth).readMembers_passOver Options.names_nodup hsub, ?_⟩
  exact bind_ok_iff.mpr ⟨_, readRest_source hs.sorted hs.kept
    fun m hm => hsub m (List.mem_append_right _ hm), rfl⟩

end Settings

end Retime
