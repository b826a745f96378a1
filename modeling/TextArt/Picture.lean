import TextArt.Raster.Basic

namespace TextArt

/-!
# Pictures — what a render hands over

* `Picture` — a size, the bytes of the pixels, and a note on the display they are for;
* `Picture.ofRaster` — the picture of a raster.
-/

/-- A finished picture, as `render` hands it over. -/
structure Picture where
  width : Nat
  height : Nat
  /-- The bytes of the pixels, four for each of `width` times `height`, row after row. -/
  rgba : ByteArray
  /-- Whether the picture is meant for a display of double density, as `Options.double` asks. -/
  doubleDensity : Bool

/-- The picture of a raster, whose buffer is `Raster.toBytes`. -/
def Picture.ofRaster (r : Raster) (doubleDensity : Bool) : Picture where
  width := r.width
  height := r.height
  rgba := r.toBytes
  doubleDensity := doubleDensity

end TextArt
