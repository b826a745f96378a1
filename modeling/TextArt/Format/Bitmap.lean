import TextArt.Raster.Basic

namespace TextArt.Format

/-!
# Bitmaps — the images that are written here

* `Bitmap` — an image: its sides, and bytes that are enough for its pixels;
* `Bitmap.ofRaw?` — the bitmap of two sides and some bytes, of which there may be too few;
* `Bitmap.colors` — its pixels, row after row.
-/

/-- An image, whose pixels `rgba` holds, four bytes each.  More bytes than that do no harm. -/
structure Bitmap where
  width : Nat
  height : Nat
  rgba : ByteArray
  enough : width * height * 4 ≤ rgba.size

namespace Bitmap

/-- The bitmap of two sides and some bytes, if there are `enough` of them. -/
def ofRaw? (width height : Nat) (rgba : ByteArray) : Option Bitmap :=
  if h : width * height * 4 ≤ rgba.size then some ⟨width, height, rgba, h⟩ else none

/-- With enough bytes, `ofRaw?` keeps what it is given. -/
theorem ofRaw?_eq {width height : Nat} {rgba : ByteArray}
    (h : width * height * 4 ≤ rgba.size) :
    ofRaw? width height rgba = some ⟨width, height, rgba, h⟩ :=
  dif_pos h

/-- The sides of a bitmap are those that `ofRaw?` was given. -/
theorem sides_of_ofRaw? {width height : Nat} {rgba : ByteArray} {b : Bitmap}
    (h : ofRaw? width height rgba = some b) : b.width = width ∧ b.height = height := by
  unfold ofRaw? at h
  split at h
  · obtain rfl := Option.some.inj h
    exact ⟨rfl, rfl⟩
  · cases h

/-- The pixels of a bitmap, row after row, as `Raster.colorsOfBytes` reads them. -/
def colors (b : Bitmap) : List Color :=
  Raster.colorsOfBytes (b.rgba.toList.take (b.width * b.height * 4))

end Bitmap

end TextArt.Format
