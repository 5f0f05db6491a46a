import Retime.Options.Resolve
import Retime.Proofs.Order
import Retime.Scalar.Double

/-!
# The Order of Resolution

Where the value of an option comes from.

There are fourteen options and three places that may decide them: the pair, the
session, and what is built in. `OptionKey` names an option, so that one
statement covers all of them. A key says what type of value it has, what a
level of options has set it to, and what is built in. That a rounding below
zero is not set is a matter of reading the level, and of nothing else.

The largest bitrate stands apart. What is chosen for it is not yet the value,
as a chosen bitrate is one of the whole picture: it is cut down to the share of
the picture that the crop leaves, and goes through the table as the bitrate of
a source does. So a bitrate that is chosen is exceeded by what is aimed at.

## Main definitions

* `OptionKey`: The name of an option.
* `Options.setting?`: What a level has set an option to.
* `OptionKey.builtIn`: The value of an option that nobody has set.
* `OptionKey.applied`: What becomes of a value that was chosen.

## Theorems

* `Options.setting?_rounding_of_neg`: A rounding below zero is not set.
* `options_resolve_in_order`: The pair decides, else the session, else what is
  built in.
-/

namespace Retime

/-- An option that a pair may decide for itself. -/
inductive OptionKey where
  | titlePrefix
  | gamma
  | encodeSpeed
  | rateFactor
  | maxBitrate
  | twoPass
  | audio
  | expandColors
  | denoise
  | stabilization
  | speedMaps
  | speedRounding
  | loopMode
  | fadeDuration
deriving DecidableEq, Repr

namespace OptionKey

/-- The values of an option. To have no title prefix is one too. -/
def Value (α : Type) : OptionKey → Type
  | titlePrefix => Option String
  | gamma | speedRounding | fadeDuration => α
  | encodeSpeed | rateFactor => UInt8
  | maxBitrate => UInt32
  | twoPass | audio | expandColors | speedMaps => Bool
  | denoise | stabilization => FilterPreset α
  | loopMode => LoopMode

variable {α : Type} [Scalar α]

/-- The value of an option that nobody has set. Four of them are decided by a
    bitrate. -/
def builtIn (table : EncodeDefaults) : (k : OptionKey) → k.Value α
  | titlePrefix => none
  | gamma => (1.0 : α)
  | encodeSpeed => table.encodeSpeed
  | rateFactor => table.rateFactor
  | maxBitrate => table.maxBitrate
  | twoPass => table.twoPass
  | audio => false
  | expandColors => false
  | denoise => FilterPreset.disabled
  | stabilization => FilterPreset.disabled
  | speedMaps => true
  | speedRounding => (0.05 : α)
  | loopMode => LoopMode.none
  | fadeDuration => (0.5 : α)

/-- What becomes of a value that was chosen. A bitrate is cut down to a share
    of the picture and raised by the table, and all else is left alone. -/
def applied (share : α) : (k : OptionKey) → k.Value α → k.Value α
  | maxBitrate, (target : UInt32) =>
    (EncodeDefaults.ofBitrate (some (Scalar.ofNat target.toNat * share))).maxBitrate
  | titlePrefix, v | gamma, v | encodeSpeed, v | rateFactor, v | twoPass, v | audio, v
  | expandColors, v | denoise, v | stabilization, v | speedMaps, v | speedRounding, v
  | loopMode, v | fadeDuration, v => v

end OptionKey

variable {α : Type} [Scalar α]

/-- What a level has set an option to, if it has. -/
def Options.setting? (o : Options α) : (k : OptionKey) → Option (k.Value α)
  | .titlePrefix => o.titlePrefix.map some
  | .gamma => o.gamma
  | .encodeSpeed => o.encodeSpeed
  | .rateFactor => o.rateFactor
  | .maxBitrate => o.maxBitrate
  | .twoPass => o.twoPass
  | .audio => o.audio
  | .expandColors => o.expandColors
  | .denoise => o.denoise
  | .stabilization => o.stabilization
  | .speedMaps => o.speedMaps
  | .speedRounding =>
    match o.speedRounding with
    | some x => if (0.0 : α) ≤ x then some x else none
    | none => none
  | .loopMode => o.loopMode
  | .fadeDuration => o.fadeDuration

/-- The value of an option that was resolved. -/
def Resolved.value (r : Resolved α) : (k : OptionKey) → k.Value α
  | .titlePrefix => r.titlePrefix
  | .gamma => r.gamma
  | .encodeSpeed => r.encodeSpeed
  | .rateFactor => r.rateFactor
  | .maxBitrate => r.maxBitrate
  | .twoPass => r.twoPass
  | .audio => r.audio
  | .expandColors => r.expandColors
  | .denoise => r.denoise
  | .stabilization => r.stabilization
  | .speedMaps => r.speedMaps
  | .speedRounding => r.speedRounding
  | .loopMode => r.loopMode
  | .fadeDuration => r.fadeDuration

namespace Options

/-- The rounding of a level is that of its setting. -/
theorem rounding?_eq_setting? (o : Options α) : o.rounding? = o.setting? .speedRounding := by
  unfold rounding? setting?
  cases o.speedRounding with
  | none => rfl
  | some x =>
      dsimp only
      by_cases h : (0.0 : α) ≤ x
      · rw [if_pos h, Option.filter_some, if_pos (decide_eq_true h)]
        rfl
      · rw [if_neg h, Option.filter_some, if_neg (by simpa using h)]
        rfl

/-- A rounding below zero is not set. -/
theorem setting?_rounding_of_neg {o : Options Float} {x : Float} (hx : o.speedRounding = some x)
    (hneg : x < 0.0) : o.setting? .speedRounding = none := by
  -- A number below zero is not at least zero, in doubles as well.
  have hnot : ¬ (0.0 : Float) ≤ x := by
    intro hle
    exact ((Double.le_iff _ _).mp hle).2 ((Double.lt_iff _ _).mp hneg).2
  unfold setting?
  rw [hx]
  exact if_neg hnot

/-- What two levels leave of an option: the setting of the upper one, or else
    that of the lower one. -/
def settingOver? (upper lower : Options α) (k : OptionKey) : Option (k.Value α) :=
  (upper.setting? k).or (lower.setting? k)

end Options

/-- The value that an option is resolved to, for each key by itself. -/
theorem Pair.value_resolve (p : Pair α) (s : Settings α) (kbps : Option α) (k : OptionKey) :
    (p.resolve s kbps).value k =
      ((p.overrides.settingOver? s.options k).map (k.applied (p.crop.share s.resolution))).getD
        (k.builtIn (EncodeDefaults.ofBitrate (kbps.map (· * p.crop.share s.resolution)))) := by
  -- A value that is left alone is the one that was found first.
  have hplain : ∀ {β : Type} (a b : Option β) (d : β),
      (a.or b).getD d = ((a.or b).map fun v => v).getD d := by
    intro β a b d
    rw [Option.map_id']
  cases k with
  | titlePrefix =>
      change p.overrides.titlePrefix.or s.options.titlePrefix =
        (((p.overrides.titlePrefix.map some).or (s.options.titlePrefix.map some)).map
          fun v => v).getD none
      cases p.overrides.titlePrefix <;> cases s.options.titlePrefix <;> rfl
  | maxBitrate =>
      -- The bitrate is resolved by a match of its own.
      have hmatch : ∀ target? : Option UInt32, p.overrides.maxBitrate.or s.options.maxBitrate =
          target? → (p.resolve s kbps).maxBitrate =
            (target?.map (OptionKey.applied (p.crop.share s.resolution : α) .maxBitrate)).getD
              (EncodeDefaults.ofBitrate (kbps.map (· * p.crop.share s.resolution))).maxBitrate := by
        intro target? htarget
        unfold Pair.resolve Options.laidOver
        dsimp only
        rw [htarget]
        cases target? with
        | none => rfl
        | some target => rfl
      exact hmatch _ rfl
  | speedRounding =>
      change (p.overrides.rounding?.or s.options.rounding?).getD defaultRounding = _
      rw [Options.rounding?_eq_setting?, Options.rounding?_eq_setting?]
      exact hplain _ _ _
  | gamma | encodeSpeed | rateFactor | twoPass | audio | expandColors | denoise | stabilization
  | speedMaps | loopMode | fadeDuration => exact hplain _ _ _

/-- Every option has the value that the pair has set it to, or else the one that
    the session has, or else the built-in one. What is built in for the encoding
    goes by the bitrate of the source, cut down to the share of the picture that
    the crop leaves. A rounding below zero is not set at either level. A largest
    bitrate that was set goes through the same table as that of a source; what
    is set for any other option is its value. -/
theorem options_resolve_in_order (p : Pair Float) (s : Settings Float) (kbps : Option Float)
    (k : OptionKey) :
    let share := p.crop.share s.resolution
    let table := EncodeDefaults.ofBitrate (kbps.map (· * share))
    (match p.overrides.setting? k, s.options.setting? k with
      | some v, _ => (p.resolve s kbps).value k = k.applied share v
      | none, some v => (p.resolve s kbps).value k = k.applied share v
      | none, none => (p.resolve s kbps).value k = k.builtIn table) ∧
    (k ≠ .maxBitrate → ∀ v, k.applied share v = v) ∧
    ∀ (o : Options Float) (x : Float), o.speedRounding = some x → x < 0.0 →
      o.setting? .speedRounding = none := by
  intro share table
  refine ⟨?_, ?_, fun o x => Options.setting?_rounding_of_neg⟩
  · have hvalue := p.value_resolve s kbps k
    unfold Options.settingOver? at hvalue
    -- The levels are asked in turn, and the first one that has set the option decides.
    cases hpair : p.overrides.setting? k with
    | some v =>
        rw [hpair] at hvalue
        exact hvalue
    | none =>
        rw [hpair, Option.none_or] at hvalue
        cases hsession : s.options.setting? k with
        | some v =>
            rw [hsession] at hvalue
            exact hvalue
        | none =>
            rw [hsession] at hvalue
            exact hvalue
  · intro hk v
    cases k with
    | maxBitrate => exact absurd rfl hk
    | _ => rfl

/-- A pair that has set the bitrate to aim at, a rounding below zero, and an
    option to no. -/
def choosyPair : Pair Float :=
  { Pair.ofMap ⟨⟨1.0, 1.0⟩, [], ⟨2.0, 1.0⟩⟩ .full with
    overrides := { maxBitrate := some 1000, speedRounding := some (-1.0), audio := some false } }

/-- The rounding falls through to the session, which has set it to zero, and the
    refusal of sound does not. -/
theorem options_resolve_in_order_choosy :
    let s : Settings Float :=
      { Settings.initial with options := { audio := some true, speedRounding := some 0.0 } }
    (choosyPair.resolve s none).value .audio = false ∧
      (choosyPair.resolve s none).value .speedRounding = (0.0 : Float) ∧
      choosyPair.overrides.setting? .speedRounding = none := by
  intro s
  have haudio := options_resolve_in_order choosyPair s none .audio
  have hrounding := options_resolve_in_order choosyPair s none .speedRounding
  have hnone := hrounding.2.2 choosyPair.overrides (-1.0) rfl (by decide)
  exact ⟨haudio.1.trans (haudio.2.1 (by decide) _),
    hrounding.1.trans (hrounding.2.1 (by decide) _), hnone⟩

/-- A bitrate that was set is not the one that is aimed at, which is higher. -/
theorem chosen_bitrate_is_raised :
    choosyPair.overrides.setting? .maxBitrate = some (1000 : UInt32) ∧
      (choosyPair.resolve .initial none).value .maxBitrate = (1600 : UInt32) ∧
      ¬ ∀ (p : Pair Float) (s : Settings Float) (kbps : Option Float) (k : OptionKey),
        (p.resolve s kbps).value k = (p.overrides.settingOver? s.options k).getD
          (k.builtIn (EncodeDefaults.ofBitrate (kbps.map (· * p.crop.share s.resolution)))) := by
  -- The table gives a source of a thousand 1.6 times as much.
  have hraised : (choosyPair.resolve .initial none).value .maxBitrate = (1600 : UInt32) := by
    change (choosyPair.resolve .initial none).maxBitrate = 1600
    decide +kernel
  refine ⟨rfl, hraised, fun h => ?_⟩
  have hsame : (1600 : UInt32) = 1000 := hraised.symm.trans (h choosyPair .initial none .maxBitrate)
  exact absurd hsame (by decide)

end Retime
