import Retime.Error
import Retime.Scalar
import Retime.Text.Blank

/-!
# Crops

The rectangle of the picture that a clip keeps.

A crop is counted in the pixels of a reference resolution and not of the
video, so that one document fits videos of any size. Its width and height may
also be given as all of the picture, and such an extent stays what it is when
the reference changes.

A crop that reaches over the edge is brought inside in two moves. First its
corner is pulled back as far as its size asks for, and only what then still
sticks out is cut off. The order matters: it keeps the size of a crop that
fits the picture at all.

## Main definitions

* `Resolution`: A reference size in pixels.
* `Crop`: A rectangle in it.
* `Crop.inside`: The crop brought inside a resolution.
* `Crop.scaled`: The crop in another resolution.
* `Crop.share`: The part of the picture that the crop covers.
* `Crop.parse`, `Crop.text`: Reading and writing `x:y:width:height`.
-/

namespace Retime

/-- The largest number of pixels that a component holds. -/
def maxPixels : Nat := UInt32.size - 1

/-- A reference size in pixels. -/
structure Resolution where
  width : UInt32
  height : UInt32
deriving DecidableEq, Repr

namespace Resolution

/-- The usual reference of a wide video. -/
def landscape : Resolution := ⟨1920, 1080⟩

/-- The usual reference of a tall video. -/
def portrait : Resolution := ⟨1080, 1920⟩

/-- The number of pixels, as a scalar. -/
def area {α : Type} [Scalar α] (r : Resolution) : α :=
  Scalar.ofNat r.width.toNat * Scalar.ofNat r.height.toNat

/-- A resolution as `width x height`, without blanks. -/
def text (r : Resolution) : String :=
  Text.natText r.width.toNat ++ "x" ++ Text.natText r.height.toNat

/-- Reads two numbers of pixels around the first `x`. Neither may be zero, and
    blanks around each are passed over. -/
def parse? (s : String) : Option Resolution := do
  let cs := Text.trim s.toList
  let after ← (cs.dropWhile (· != 'x')).tail?
  let width ← Text.readNat? maxPixels (Text.trim (cs.takeWhile (· != 'x')))
  let height ← Text.readNat? maxPixels (Text.trim after)
  if width = 0 ∨ height = 0 then none else some ⟨.ofNat width, .ofNat height⟩

end Resolution

/-- The width or the height of a crop. -/
inductive Extent where
  /-- A number of pixels. -/
  | pixels (n : UInt32)
  /-- All of the picture. -/
  | full
deriving DecidableEq, Repr

namespace Extent

/-- The number of pixels, where the picture has `whole` of them. -/
def size (whole : UInt32) : Extent → UInt32
  | .pixels n => n
  | .full => whole

/-- Applies a function to a number of pixels and leaves a full extent alone. -/
def map (f : UInt32 → UInt32) : Extent → Extent
  | .pixels n => .pixels (f n)
  | .full => .full

/-- An extent as text, where `symbol` stands for all of the picture. -/
def text (symbol : String) : Extent → String
  | .pixels n => Text.natText n.toNat
  | .full => symbol

end Extent

/-- A rectangle of the picture. -/
structure Crop where
  x : UInt32
  y : UInt32
  width : Extent
  height : Extent
deriving DecidableEq, Repr

namespace Crop

/-- The whole picture. -/
def full : Crop := ⟨0, 0, .full, .full⟩

instance : Inhabited Crop := ⟨full⟩

/-- The corner of an extent of `size` pixels, pulled back so that as much of
    it as possible lies within `whole`. -/
def pullBack (corner size whole : UInt32) : UInt32 :=
  min corner (whole - min size whole)

/-- The crop brought inside a resolution. -/
def inside (r : Resolution) (c : Crop) : Crop :=
  let x := pullBack c.x (c.width.size r.width) r.width
  let y := pullBack c.y (c.height.size r.height) r.height
  { x
    y
    width := c.width.map fun w => min w (r.width - x)
    height := c.height.map fun h => min h (r.height - y) }

section

variable {α : Type} [Scalar α]

/-- A number of pixels times a factor, to the nearest that a component
    holds. -/
def scalePixels (factor : α) (n : UInt32) : UInt32 :=
  .ofNat (Scalar.toInt 0 maxPixels (Scalar.round (Scalar.ofNat n.toNat * factor))).toNat

/-- The crop with its numbers of pixels multiplied. -/
def scaled (horizontal vertical : α) (c : Crop) : Crop :=
  { x := scalePixels horizontal c.x
    y := scalePixels vertical c.y
    width := c.width.map (scalePixels horizontal)
    height := c.height.map (scalePixels vertical) }

/-- The part of the picture that the crop covers, between zero and one. -/
def share (r : Resolution) (c : Crop) : α :=
  if (r.area : α) ≤ 0.0 then
    0.0
  else
    let covered : α :=
      Scalar.ofNat (c.width.size r.width).toNat * Scalar.ofNat (c.height.size r.height).toNat
    Scalar.clamp 0.0 1.0 (covered / r.area)

end

/-- A crop as text. -/
def text (c : Crop) : String :=
  Text.natText c.x.toNat ++ ":" ++ Text.natText c.y.toNat ++ ":" ++ c.width.text "iw" ++ ":" ++
    c.height.text "ih"

/-- Reads a number of pixels. -/
def parsePixels (name : String) (cs : List Char) : Except CropFlaw UInt32 :=
  match Text.readNat? maxPixels cs with
  | some n => .ok (.ofNat n)
  | none => .error (.notWhole name)

/-- Reads a number of pixels or the symbol for all of the picture. -/
def parseExtent (symbol : List Char) (name : String) (cs : List Char) : Except CropFlaw Extent :=
  if cs = symbol then .ok .full else (parsePixels name cs).map .pixels

/-- Reads the four components of a crop. Blanks around each are passed over. -/
def parseChars (cs : List Char) : Except CropFlaw Crop :=
  match (Text.pieces ':' (Text.trim cs)).map Text.trim with
  | [x, y, w, h] => do
    let x ← parsePixels "x" x
    let y ← parsePixels "y" y
    let width ← parseExtent ['i', 'w'] "width" w
    let height ← parseExtent ['i', 'h'] "height" h
    return ⟨x, y, width, height⟩
  | _ => .error .notFour

/-- Reads a crop from its text. -/
def parse {α : Type} (s : String) : Except (MarkerError α) Crop :=
  match parseChars s.toList with
  | .ok c => .ok c
  | .error flaw => .error (.badCrop s flaw)

end Crop

end Retime
