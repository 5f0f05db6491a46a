import Retime.Document.Markers
import Retime.Proofs.DoubleValue
import Retime.Proofs.PairRecords
import Retime.Proofs.StoredOptions

/-!
# Stored Pairs

Pairs come back.

What is read of a pair that was written is its record, but for a play time that
is not finite, which is written as null and would not count anyway. The record
makes the pair because a finite double is nothing away from itself.

A play time is read only if it can be one. The one of a pair that was read is
either such a time or the naive one, which is what stands in for a time that
was not read.

## Main definitions

* `LoopRange.Stored`, `PairRecord.Stored`, `Pair.Stored`: What holds after
  reading.
* `Pair.Writable`: What it takes to be written and read again.
* `Pair.reloaded`: What comes back of a pair that was read before.

## Theorems

* `Double.eq_of_beq`: What compares as equal to a positive double is the same.
* `returns_list`: A list comes back one by one.
* `Pair.read_stored`: A pair that is read is stored.
* `Pair.Writable.returns`: A pair that can be written comes back as its record
  makes it.
* `Pair.Stored.returned_eq`: A stored pair keeps its play time.
-/

namespace Retime

variable {W : Int → Prop} {depth : Nat}

namespace Double

open Float.Model Float.Model.UnpackedFloat

theorem beq_iff (x y : Float) : (x == y) = true ↔
    (x.toModel.unpack).beq y.toModel.unpack = true := Iff.rfl

/-- A number compares as equal to itself. -/
theorem beq_self {x : Float} (h : x.isFinite = true) : (x == x) = true := by
  have hnumber := not_isNaN_of_isFinite h
  rw [beq_iff, beq_iff_ne_notANumber_and_eq]
  have hne : x.toModel.unpack ≠ .notANumber := by
    intro heq
    rw [heq] at hnumber
    cases hnumber
  exact ⟨hne, hne, Or.inl rfl⟩

/-- What compares as equal to a positive double is the same. -/
theorem eq_of_beq {x y : Float} (hx : (0.0 : Float) < x) (h : (x == y) = true) : x = y := by
  rw [beq_iff, beq_iff_ne_notANumber_and_eq] at h
  have hzero : ∀ s, x.toModel.unpack ≠ .zero s := by
    intro s heq
    have hnone : rank (Float.toModel 0.0).unpack = ⟨0, 0, 0⟩ := rfl
    have hbelow := ((lt_iff _ _).mp hx).2
    rw [heq, hnone] at hbelow
    simp [rank, Rank.Below] at hbelow
  rcases h.2.2 with h | h | h
  · exact eq_of_unpack_eq h
  · exact absurd h.1 (hzero _)
  · exact absurd h.1 (hzero _)

end Double

/-! ### Points and ranges -/

/-- A point with a finite time and a finite speed comes back. -/
theorem SpeedPoint.returns {p : SpeedPoint Float} (htime : p.time.isFinite = true)
    (hspeed : p.speed.isFinite = true) (hdepth : depth < Source.maxDepth) :
    Returns W depth (SpeedPoint.read .text) p.toJson p := by
  have hnames : (SpeedPoint.shape (α := Float)).names.Nodup := by decide
  have htakes : (SpeedPoint.shape (α := Float)).Takes W (depth + 1) SpeedPoint.shape.fields
      SpeedPoint.shape.blank [("x", .real p.time), ("y", .real p.speed)] p [] :=
    .present (fun _ _ => rfl) (returns_real htime) <|
      .present (fun _ _ => rfl) (returns_real hspeed) <| .done (List.forall_mem_nil _)
  exact htakes.returns hnames hdepth

namespace LoopRange

/-- A range whose ends are finite, where they are set. -/
structure Stored (r : LoopRange Float) : Prop where
  start : ∀ x ∈ r.start, x.isFinite = true
  stop : ∀ x ∈ r.stop, x.isFinite = true

theorem upholds_stored : (shape (α := Float)).Upholds depth Stored := by
  refine ⟨⟨nofun, nofun⟩, fun f hf v r r' hv hr h => ?_⟩
  have hreal : ∀ {x? : Option Float}, readOption readReal v = .ok x? →
      ∀ x ∈ x?, x.isFinite = true :=
    fun h x hx => isFinite_of_readReal (mem_readOption h x hx)
  simp only [shape, List.mem_cons, List.not_mem_nil, or_false] at hf
  rcases hf with rfl | rfl | rfl
  all_goals rcases bind_ok_iff.mp h with ⟨x, hx, ⟨⟩⟩
  · exact { hr with start := hreal hx }
  · exact { hr with stop := hreal hx }
  · exact { hr with }

theorem Stored.returns {r : LoopRange Float} (hr : r.Stored) (hdepth : depth < Source.maxDepth) :
    Returns W depth (read .text) r.toJson r := by
  have hnames : (shape (α := Float)).names.Nodup := by decide
  have htakes : (shape (α := Float)).Takes W (depth + 1) shape.fields shape.blank
      (Json.member? "start" (r.start.map .real) ++ (Json.member? "end" (r.stop.map .real) ++
        [("enabled", .bool r.enabled)])) r [] :=
    .option (fun _ _ => rfl) rfl rfl nofun (fun x hx => returns_real (hr.start x hx)) <|
      .option (fun _ _ => rfl) rfl rfl nofun (fun x hx => returns_real (hr.stop x hx)) <|
        .present (fun _ _ => rfl) (returns_bool r.enabled) <| .done (List.forall_mem_nil _)
  unfold toJson
  rw [List.append_assoc]
  exact htakes.returns hnames hdepth

end LoopRange

/-- Options of a pair come back. -/
theorem Options.Stored.returns {o : Options Float} (ho : o.Stored (depth + 1))
    (hdepth : depth + 1 < Source.maxDepth) :
    Returns Json.InRange depth (Options.read .text) o.toJson o := by
  have htakes : (Options.shape (LoopMode.read .text)).Takes Json.InRange (depth + 1)
      (Options.shape (LoopMode.read .text)).fields .empty (o.members ++ []) o [] :=
    ho.takes hdepth (fun _ h => by cases h) returns_loopMode (List.forall_mem_nil _)
  rw [List.append_nil] at htakes
  exact htakes.returns Options.names_nodup (Nat.lt_of_succ_lt hdepth)

/-- A list of values that come back, each as something, comes back. -/
theorem returns_list {β γ : Type} {read : Source → Except (DocumentError Float) β}
    {toJson : γ → Json Float} {after : γ → β} {cs : List γ} (hdepth : depth < Source.maxDepth)
    (h : ∀ c ∈ cs, Returns W (depth + 1) read (toJson c) (after c)) :
    Returns W depth (readList read) (.array (cs.map toJson)) (cs.map after) where
  fits := .array hdepth (List.forall_mem_map.mpr fun c hc => (h c hc).fits)
  back hreals := by
    have hitems : ∀ {ds : List γ}, (∀ d ∈ ds, d ∈ cs) →
        (Json.sourceItems (ds.map toJson)).mapM read = .ok (ds.map after) := by
      -- By induction on a part of the list, since the doubles are those of all of it.
      intro ds hds
      induction ds with
      | nil =>
          rw [List.map_nil, Json.sourceItems]
          rfl
      | cons d ds ih =>
          rcases List.forall_mem_cons.mp hds with ⟨hd, hds⟩
          rw [List.map_cons, Json.sourceItems, List.mapM_cons,
            (h d hd).back (hreals.item (List.mem_map_of_mem hd)), ih hds]
          rfl
    rw [Json.source]
    exact hitems fun _ h => h

/-! ### Maps -/

namespace SpeedMap

variable {m : SpeedMap Float}

/-- A finite double is nothing away from itself. -/
theorem Sound.onMarkers (hm : m.Sound) : m.OnMarkers := by
  have hnear : ¬ (Pair.tolerance : Float) < Scalar.abs 0.0 := by decide
  constructor
  · rw [Double.sub_self_eq_zero hm.finite_start]
    exact hnear
  · rw [Double.sub_self_eq_zero hm.finite_stop]
    exact hnear

theorem Sound.speed_positive (hm : m.Sound) : (0.0 : Float) < m.first.speed := by
  have hfirst := hm.speed m.first List.mem_cons_self
  exact of_decide_eq_true (Bool.and_eq_true_iff.mp hfirst).2

/-- A map of one speed with only its ends. -/
theorem eq_plain (hm : m.Sound) (hconstant : m.isVariable = false)
    (htwo : m.points.length = 2) : m = plain m.start m.stop m.first.speed := by
  obtain ⟨first, inner, last⟩ := m
  have hinner : inner = [] := by
    rw [length_points] at htwo
    exact List.eq_nil_of_length_eq_zero (by simpa using htwo)
  subst hinner
  have hsame : (first.speed == last.speed) = true := by
    have hsegment : (!(first.speed == last.speed) || false) = false := hconstant
    rw [Bool.or_false, Bool.not_eq_false'] at hsegment
    exact hsegment
  -- Zeros of either sign compare as equal, but a speed is positive.
  have hspeed := Double.eq_of_beq hm.speed_positive hsame
  rw [plain, mk.injEq]
  refine ⟨rfl, rfl, ?_⟩
  obtain ⟨time, speed⟩ := last
  exact congrArg (SpeedPoint.mk time) hspeed.symm

end SpeedMap

/-! ### Pairs -/

namespace PairRecord

/-- A record whose options and whose range are stored. -/
structure Stored (depth : Nat) (r : PairRecord Float) : Prop where
  overrides : r.overrides.Stored (depth + 1)
  loop : r.loop.Stored

theorem upholds_stored : (Pair.shape (α := Float) .text).Upholds depth (Stored depth) := by
  refine ⟨⟨Options.stored_empty, nofun, nofun⟩, fun f hf v r r' hv hr h => ?_⟩
  simp only [Pair.shape, List.mem_cons, List.not_mem_nil, or_false] at hf
  -- Each field sets its own part, and two of them are records with conditions of their own.
  rcases hf with rfl | rfl | rfl | rfl | rfl | rfl | rfl | rfl
  all_goals rcases bind_ok_iff.mp h with ⟨x, hx, ⟨⟩⟩
  · exact { hr with }
  · exact { hr with }
  · exact { hr with }
  · exact { hr with }
  · exact { hr with overrides := Shape.readClosed_upholds Options.upholds_stored hv hx }
  · exact { hr with }
  · exact { hr with loop := Shape.readClosed_upholds LoopRange.upholds_stored hv hx }
  · exact { hr with }

end PairRecord

namespace Pair

/-- A pair that can be written into an object at a depth and read again. Its
    play time may be any. -/
structure Writable (depth : Nat) (p : Pair Float) : Prop where
  sound : p.map.Sound
  overrides : p.overrides.Stored (depth + 2)
  loop : p.loop.Stored

/-- A pair as it is after it has been read from an object at a depth: its play
    time is the naive one, or one that was stored. -/
structure Stored (depth : Nat) (p : Pair Float) : Prop extends Writable depth p where
  playTime : p.playTime = p.naiveTime ∨ (p.playTime.isFinite = true ∧ (0.0 : Float) ≤ p.playTime)

theorem storedTime?_eq_some {r : PairRecord Float} {x : Float} (h : storedTime? r = some x) :
    x.isFinite = true ∧ (0.0 : Float) ≤ x := by
  have htest := (Option.filter_eq_some_iff.mp h).2
  rcases Bool.and_eq_true_iff.mp htest with ⟨hfinite, hle⟩
  exact ⟨hfinite, of_decide_eq_true hle⟩

/-- A pair that is read is stored. -/
theorem read_stored {v : Source} (hv : v.Fits depth) {p : Pair Float}
    (h : read .text v = .ok p) : p.Stored depth := by
  unfold read at h
  rcases bind_ok_iff.mp h with ⟨r, hr, h⟩
  have hread := marking_ok_iff.mp h
  have hrecord := Shape.readClosed_upholds PairRecord.upholds_stored hv hr
  rcases bind_ok_iff.mp hread with ⟨m, hm, hp⟩
  cases hp
  refine ⟨⟨mapOfRecord_sound hm, hrecord.overrides, hrecord.loop⟩, ?_⟩
  cases htime : storedTime? r with
  | none => exact Or.inl rfl
  | some x => exact Or.inr (storedTime?_eq_some htime)

/-- What comes back of a pair: its moves are gone, and a map of one speed has
    only its ends. -/
def reloaded (p : Pair Float) : Pair Float :=
  { p with
    map := if p.map.isVariable then p.map else .plain p.start p.stop p.speed
    moves := {} }

/-- What is read of a pair that was written. -/
def storedRecord (p : Pair Float) : PairRecord Float :=
  { p.toRecord with playTime := if p.playTime.isFinite then some p.playTime else none }

/-- A play time that is not finite is not written, and would not be read. -/
theorem storedTime?_storedRecord (p : Pair Float) :
    storedTime? p.storedRecord = storedTime? p.toRecord := by
  by_cases hfinite : p.playTime.isFinite = true
  · have hrecord : p.storedRecord.playTime = p.toRecord.playTime := if_pos hfinite
    unfold storedTime?
    rw [hrecord]
  · have hrecord : p.storedRecord.playTime = none := if_neg hfinite
    -- The reader asks for a finite time, so it makes no difference that none was written.
    have htime : storedTime? p.toRecord = none := by
      refine Option.filter_eq_none_iff.mpr fun x hx htest => ?_
      cases hx
      exact hfinite (Bool.and_eq_true_iff.mp htest).1
    rw [htime]
    unfold storedTime?
    rw [hrecord]
    rfl

/-- What is read of a pair that was written makes what its record makes. -/
theorem ofRecord_storedRecord {p : Pair Float} (hp : p.map.Sound) :
    ofRecord p.storedRecord = .ok p.returned := by
  have hrecord := ofRecord_toRecord hp hp.onMarkers
  have hmap : mapOfRecord p.storedRecord = mapOfRecord p.toRecord := rfl
  unfold ofRecord at hrecord ⊢
  rw [hmap, storedTime?_storedRecord]
  exact hrecord

/-- A play time that is kept is read, and any other was the naive one. -/
theorem Stored.returned_eq {p : Pair Float} (hp : p.Stored depth) : p.returned = p.reloaded := by
  have htime : p.returned.playTime = p.playTime := by
    by_cases hle : (0.0 : Float) ≤ p.playTime ∧ p.playTime.isFinite = true
    · exact returned_playTime_of_le hle.2 hle.1
    -- Only the naive time can be dropped, and it is what stands in.
    · rcases hp.playTime with hnaive | hstored
      · have hnone : storedTime? p.toRecord = none := by
          refine Option.filter_eq_none_iff.mpr fun x hx htest => ?_
          cases hx
          rcases Bool.and_eq_true_iff.mp htest with ⟨hfinite, hnonneg⟩
          exact hle ⟨of_decide_eq_true hnonneg, hfinite⟩
        change (storedTime? p.toRecord).getD p.naiveTime = p.playTime
        rw [hnone]
        exact hnaive.symm
      · exact absurd hstored.symm hle
  unfold reloaded
  rw [← htime]
  rfl

/-- A play time comes back, or nothing does, if it is not finite. -/
theorem returns_playTime (x : Float) : Returns W depth (readOption readReal) (.number (.real x))
    (if x.isFinite then some x else none) := by
  by_cases hx : x.isFinite = true
  · rw [if_pos hx]
    exact (returns_real hx).optional nofun
  · rw [if_neg hx]
    refine ⟨.real, fun _ => ?_⟩
    rw [Json.source, if_neg hx]
    rfl

/-- A speed is read as a number, though a text would do. -/
theorem returns_speed {x : Float} (hx : x.isFinite = true) :
    Returns W depth readLenientSpeed (.number (.real x)) x where
  fits := .real
  back hreals := by
    have hvalue := Source.value_source (@Json.Kept.real depth x hx) hreals
    exact bind_ok_iff.mpr ⟨_, evaluated_ok_iff.mpr hvalue, rfl⟩

theorem names_nodup : (shape (α := Float) .text).names.Nodup := by decide

/-- The members of a pair, behind its number, make the record. -/
theorem Writable.takes {p : Pair Float} (hp : p.Writable depth) (index : Nat)
    (hdepth : depth + 2 < Source.maxDepth) :
    (shape .text).Takes (fun _ => True) (depth + 1) (shape .text).fields (shape .text).blank
      (("number", .nat (index + 1)) :: p.members) p.storedRecord
      [("number", .nat (index + 1))] := by
  have hnumber : "number" ∉ (shape (α := Float) .text).names := by decide
  have hspeed := Bool.and_eq_true_iff.mp (hp.sound.speed p.map.first List.mem_cons_self)
  have hpoints : ∀ ps ∈ p.toRecord.points, Returns (fun _ => True) (depth + 1)
      (readList (SpeedPoint.read .text)) (.array (ps.map SpeedPoint.toJson)) ps := by
    intro ps hps
    have heq : ps = p.map.points := by
      change (if p.map.isVariable then some p.map.points else none) = some ps at hps
      split at hps
      · exact (Option.some.inj hps).symm
      · cases hps
    have hlist : Returns (fun _ => True) (depth + 1) (readList (SpeedPoint.read .text))
        (.array (p.map.points.map SpeedPoint.toJson)) (p.map.points.map id) :=
      returns_list (Nat.lt_of_succ_lt hdepth) fun q hq =>
        SpeedPoint.returns (hp.sound.finite q hq)
          (Bool.and_eq_true_iff.mp (hp.sound.speed q hq)).1 hdepth
    rw [List.map_id] at hlist
    exact heq ▸ hlist
  -- The number of a pair is passed over.
  refine .unknown hnumber (.whole trivial) ?_
  unfold members
  simp only [List.append_assoc, List.cons_append, List.nil_append]
  refine .present (fun _ _ => rfl) (returns_real hp.sound.finite_start) ?_
  refine .present (fun _ _ => rfl) (returns_real hp.sound.finite_stop) ?_
  dsimp only
  refine .present (fun _ _ => rfl) (returns_crop p.crop) ?_
  dsimp only
  refine .present (fun _ _ => rfl) (returns_speed hspeed.1) ?_
  dsimp only
  refine .present (fun _ _ => rfl)
    ((hp.overrides.returns hdepth).imp fun _ _ => trivial) ?_
  dsimp only
  refine .option (fun _ _ => rfl) rfl rfl nofun hpoints ?_
  dsimp only
  refine .present (fun _ _ => rfl) (hp.loop.returns (Nat.lt_of_succ_lt hdepth)) ?_
  dsimp only
  exact .present (fun _ _ => rfl) (returns_playTime p.playTime) (.done (List.forall_mem_nil _))

/-- A pair comes back from an object with its number, as its record makes it. -/
theorem Writable.returns {p : Pair Float} (hp : p.Writable depth) (index : Nat)
    (hdepth : depth + 2 < Source.maxDepth) :
    Returns (fun _ => True) depth (read .text) (Markers.numbered p index) p.returned := by
  have hrecord : Returns (fun _ => True) depth ((shape .text).readClosed .text)
      (Markers.numbered p index) p.storedRecord :=
    (hp.takes index hdepth).returns names_nodup (Nat.lt_of_succ_lt (Nat.lt_of_succ_lt hdepth))
  have hback := marking_ok_iff.mpr (ofRecord_storedRecord hp.sound)
  exact ⟨hrecord.fits, fun hreals => bind_ok_iff.mpr ⟨_, hrecord.back hreals, hback⟩⟩

end Pair

end Retime
