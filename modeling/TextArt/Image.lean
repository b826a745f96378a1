import TextArt.Picture
import TextArt.SaveError

namespace TextArt

/-!
# Images — what others make of pixels

Images are made and encoded by code that is not part of this library.  It is known here by the
functions that are asked of it, such as `fromRaw`, which makes an image of two sides and the bytes
of the pixels or refuses them.

* `imageOf` — the image of some bytes, by a `fromRaw` that knows sides of 32 bits only;
* `imageOf_eq` — what `imageOf` comes to if the sides are such;
* `Raster.image`, `Picture.image` — the image of a raster, and that of a picture.
-/

/-- The largest side that an image can have, of which `imageOf` knows. -/
def largestSide : Nat := UInt32.size - 1

section

variable {Image : Type} (fromRaw : Nat → Nat → ByteArray → Option Image)

/-- The image that `fromRaw` makes of `rgba`, unless a side is larger than `largestSide` or the
    bytes are refused. -/
def imageOf (width height : Nat) (rgba : ByteArray) : Except SaveError Image :=
  if width ≤ largestSide ∧ height ≤ largestSide then
    match fromRaw width height rgba with
    | some image => .ok image
    | none => .error (.bufferSize width height rgba.size)
  else .error (.bufferSize width height rgba.size)

/-- Within `largestSide`, it depends on `fromRaw` alone whether there is an image. -/
theorem imageOf_eq {width height : Nat} {rgba : ByteArray} {image : Image}
    (hwidth : width ≤ largestSide) (hheight : height ≤ largestSide)
    (himage : fromRaw width height rgba = some image) :
    imageOf fromRaw width height rgba = .ok image := by
  rw [imageOf, if_pos ⟨hwidth, hheight⟩, himage]

/-- The image of a raster, of its bytes in `Raster.toBytes`. -/
def Raster.image (r : Raster) : Except SaveError Image :=
  imageOf fromRaw r.width r.height r.toBytes

/-- The image of a picture, of its `Picture.rgba`. -/
def Picture.image (p : Picture) : Except SaveError Image :=
  imageOf fromRaw p.width p.height p.rgba

end

end TextArt
