import TextArt.Artifact
import TextArt.Settings

namespace TextArt

/-!
# Codecs — what a program relies on

Texts of settings are parsed, and images are made and encoded, by code that is not part of this
library.

* `Codecs` — the functions that are asked of that code;
* `Codecs.refusal` — why it does not encode an artifact, if it does not;
* `Codecs.Reliable` — what is documented of it: it takes every buffer that is long enough, and
  encodes every image that has pixels and is not too large for any format.
-/

/-- Functions that parse `Settings`, and that make and encode images. -/
structure Codecs (Image : Type) where
  /-- The `Settings` that a text says, or nothing if it is not well-formed. -/
  settings : String → Option Settings
  /-- The image of two sides and the bytes of the pixels, or nothing if it is not made; see
      `imageOf`. -/
  fromRaw : Nat → Nat → ByteArray → Option Image
  /-- Why the encoder of pictures refuses an image, if it does; `none` if the image is written. -/
  pictureRefusal : Image → Option String
  /-- Why the encoder of animations refuses frames, if it does; `none` if they are written. -/
  animationRefusal : Recording Image → Option String

namespace Codecs

variable {Image : Type} (codecs : Codecs Image)

/-- Why an `Artifact` is not encoded, if it is not.  Bare `pixels` are written as they are. -/
def refusal : Artifact Image → Option String
  | .picture image => codecs.pictureRefusal image
  | .animation r => codecs.animationRefusal r
  | .pixels _ => none

/-- `image` is made by `fromRaw`, with sides of at least one and at most 65535 pixels. -/
def Makes (image : Image) : Prop :=
  ∃ width height rgba, codecs.fromRaw width height rgba = some image
    ∧ (1 ≤ width ∧ width ≤ 65535) ∧ 1 ≤ height ∧ height ≤ 65535

/-- What is documented of the functions, as far as `CommandLine.run` relies on it. -/
structure Reliable : Prop where
  /-- Of every buffer that is long enough for its sides `fromRaw` makes an image. -/
  takes : ∀ width height rgba, width * height * 4 ≤ rgba.size →
    (codecs.fromRaw width height rgba).isSome
  /-- An image that the functions `Makes` of common sides is encoded as a picture. -/
  encodes_picture : ∀ image, codecs.Makes image → codecs.pictureRefusal image = none
  /-- Frames that the functions `Makes` of common sides are encoded as an animation. -/
  encodes_animation : ∀ r : Recording Image, (∀ image ∈ r.frames, codecs.Makes image) →
    codecs.animationRefusal r = none

end Codecs

end TextArt
