import Retime.Scalar

/-!
# Encoding by Bitrate

How a clip is encoded unless somebody chooses: by the bitrate of its source.
The table goes up in steps. A source of a higher bitrate is encoded faster and
at a coarser quality, and is allowed a little more than it had.

## Main definitions

* `EncodeDefaults`: What the bitrate decides.
* `EncodeDefaults.ofBitrate`: The table.
-/

namespace Retime

/-- What the bitrate of a source decides about the encoding. -/
structure EncodeDefaults where
  /-- The constant rate factor. -/
  rateFactor : UInt8
  /-- The largest bitrate to aim at, in kilobits per second; zero is without
      bound. -/
  maxBitrate : UInt32
  encodeSpeed : UInt8
  twoPass : Bool
deriving DecidableEq, Repr

namespace EncodeDefaults

variable {α : Type} [Scalar α]

/-- What is decided where the bitrate is not known. -/
def unknown : EncodeDefaults :=
  ⟨30, 0, 2, false⟩

/-- The row of the table for a bitrate: the rate factor, what the bitrate is
    multiplied by, and the encoding speed. -/
def row (kbps : α) : UInt8 × α × UInt8 :=
  if kbps ≤ 4000.0 then (20, 1.6, 2)
  else if kbps ≤ 6000.0 then (22, 1.5, 3)
  else if kbps ≤ 10000.0 then (24, 1.4, 4)
  else if kbps ≤ 15000.0 then (26, 1.3, 5)
  else if kbps ≤ 20000.0 then (30, 1.2, 5)
  else (35, 1.1, 5)

/-- The encoding for a bitrate. One that is negative or not finite is not
    known. -/
def ofBitrate (kbps : Option α) : EncodeDefaults :=
  match kbps.filter fun b => Scalar.isFinite b && decide ((0.0 : α) ≤ b) with
  | none => unknown
  | some kbps =>
    let (rateFactor, factor, encodeSpeed) := row kbps
    { rateFactor
      maxBitrate := .ofNat (Scalar.toInt 0 (UInt32.size - 1) (factor * kbps)).toNat
      encodeSpeed
      twoPass := false }

end EncodeDefaults

end Retime
