import TextArt.Proofs.Machine.Pixels

namespace TextArt

/-!
# Painting — rasters that are made step by step

A raster is a new one, or one that was reduced, and then something is done to its pixels, and to
those of the outcome again.  Whatever has been done, its bytes are those of a raster, and the next
operation changes the pixels that it should change and no others.

* `Raster.Operation` — what can be done to a raster, told in the numbers of a machine;
  `Raster.Operation.on` does it to a raster and `Machine.Flat.paint` to the bytes of one;
* `Raster.Operation.shows` — what is to be seen at a place afterwards;
  `Raster.Operation.pixel?_on` says that it is;
* `Machine.Flat.paint_of` — an operation that fits is done to the bytes of a raster without a
  failure;
* `Machine.Flat.Made` — the flat rasters that can be made at all, and
  `Machine.Flat.Made.complete`, which says that they have four bytes for each pixel;
* `Machine.Flat.paints_exactly` — **what is done to any raster that can be made**.
-/

namespace Raster

/-- What can be done to the pixels of a `Raster`, with numbers of eight bytes. -/
inductive Operation
  | fill (x y w h : UInt64) (c : Color)
  | clear (x y w h : UInt64)
  | put (x y w h : UInt64) (bitmap : Bytes)
  | shiftUp (k : UInt64)
  | overlay (top : Raster)
  | copy (source : Raster)

namespace Operation

/-- The raster that an `Operation` leaves. -/
def on (r : Raster) : Operation → Raster
  | fill x y w h c => r.fill x.toNat y.toNat w.toNat h.toNat c
  | clear x y w h => r.clear x.toNat y.toNat w.toNat h.toNat
  | put x y w h bitmap =>
    r.put x.toNat y.toNat w.toNat h.toNat (Raster.colorsOfBytes bitmap).toArray
  | shiftUp k => r.shiftUp k.toNat
  | overlay top => r.overlay top
  | copy source => r.copy source

/-- Other rasters must have the `SameSize` as this one, and bitmaps must be of a size whose bytes
    can be counted, however many bytes there are. -/
def Fits (r : Raster) : Operation → Prop
  | put _ _ w h _ => w.toNat * h.toNat * 4 < UInt64.size
  | overlay top => r.SameSize top
  | copy source => r.SameSize source
  | _ => True

/-- What is seen at column `i` of row `j`, a place on the raster, once the operation is done. -/
def shows (r : Raster) (i j : Nat) : Operation → Option Color
  | fill x y w h c =>
    if Raster.Inside x.toNat y.toNat w.toNat h.toNat i j then some c else r.pixel? i j
  | clear x y w h =>
    if Raster.Inside x.toNat y.toNat w.toNat h.toNat i j then some .transparent
    else r.pixel? i j
  | put x y w h bitmap =>
    -- the first pixel of the row of the bitmap, and how many of the row fall on the raster
    let first := (j - y.toNat) * w.toNat
    let span := min (x.toNat + w.toNat) r.width - x.toNat
    if Raster.Inside x.toNat y.toNat w.toNat h.toNat i j ∧ (first + span) * 4 ≤ bitmap.length then
      Machine.pixelAt bitmap (first + (i - x.toNat))
    else r.pixel? i j
  | shiftUp k =>
    if 0 < k.toNat ∧ k.toNat < r.height ∧ j + k.toNat < r.height then r.pixel? i (j + k.toNat)
    else r.pixel? i j
  | overlay top => (top.pixel? i j).bind fun t => (r.pixel? i j).map fun b => t.onto b
  | copy source => source.pixel? i j

variable (r : Raster) (o : Operation)

theorem sameSize_on : (o.on r).SameSize r := by
  cases o with
  | fill x y w h c => exact ⟨r.width_fill .., r.height_fill ..⟩
  | clear x y w h => exact ⟨r.width_clear .., r.height_clear ..⟩
  | put x y w h bitmap => exact ⟨rfl, rfl⟩
  | shiftUp k => exact ⟨r.width_shiftUp .., r.height_shiftUp ..⟩
  | overlay top => exact ⟨r.width_overlay .., r.height_overlay ..⟩
  | copy source => exact ⟨r.width_copy .., r.height_copy ..⟩

variable {r o} {i j : Nat}

theorem pixel?_fill_on (hi : i < r.width) (hj : j < r.height) (x y w h : Nat) (c : Color) :
    (r.fill x y w h c).pixel? i j
      = if Raster.Inside x y w h i j then some c else r.pixel? i j := by
  rw [Raster.pixel?_fill]
  by_cases hin : Raster.Inside x y w h i j
  · rw [if_pos ⟨hin, hi, hj⟩, if_pos hin]
  · rw [if_neg fun h => hin h.1, if_neg hin]

/-- A bitmap of bytes holds `n` pixels for `colorsOfBytes` if it has the bytes of as many. -/
theorem le_size_iff (n : Nat) (bitmap : Bytes) :
    n ≤ (Raster.colorsOfBytes bitmap).toArray.size ↔ n * 4 ≤ bitmap.length := by
  rw [List.size_toArray, Raster.length_colorsOfBytes, Nat.le_div_iff_mul_le (by decide)]

/-- An operation that `Fits` makes every pixel what it `shows`. -/
theorem pixel?_on (ho : o.Fits r) (hi : i < r.width) (hj : j < r.height) :
    (o.on r).pixel? i j = o.shows r i j := by
  cases o with
  | fill x y w h c => exact pixel?_fill_on hi hj ..
  | clear x y w h => exact pixel?_fill_on hi hj ..
  | put x y w h bitmap =>
    rw [on, Raster.pixel?_put, shows]
    -- a bitmap of bytes holds a pixel just if it has the last byte of it
    split
    · next hput =>
      rw [if_pos ⟨hput.1, (le_size_iff _ bitmap).mp hput.2.2.2⟩, List.getElem?_toArray,
        Machine.getElem?_colorsOfBytes]
    · next hput =>
      rw [if_neg fun h => hput ⟨h.1, hi, hj, (le_size_iff _ bitmap).mpr h.2⟩]
  | shiftUp k =>
    rw [on, Raster.pixel?_shiftUp, shows]
    -- a shift by nothing is one that moves every pixel to its own place
    by_cases hk : k.toNat = 0
    · rw [hk, Nat.add_zero, ite_self, ite_self]
    · by_cases hin : k.toNat < r.height ∧ j + k.toNat < r.height
      · rw [if_pos hin, if_pos ⟨Nat.pos_of_ne_zero hk, hin⟩]
      · rw [if_neg hin, if_neg fun h => hin h.2]
  | overlay top => exact Raster.pixel?_overlay r ho i j
  | copy source =>
    have hsize : r.SameSize source := ho
    rw [on, Raster.copy, if_pos hsize, shows]

end Operation

end Raster

namespace Machine.Flat

open Raster (Operation)

/-- Do an `Operation` to the bytes of a raster. -/
def paint (f : Flat) : Operation → Option Flat
  | .fill x y w h c => f.fill x.toNat y.toNat w.toNat h.toNat c
  | .clear x y w h => f.clear x.toNat y.toNat w.toNat h.toNat
  | .put x y w h bitmap => f.put x.toNat y.toNat w.toNat h.toNat bitmap
  | .shiftUp k => f.shiftUp k.toNat
  | .overlay top => f.overlay (.of top)
  | .copy source => f.copy (.of source)

variable {r : Raster} {f g : Flat} {o : Operation}

/-- An operation that `Fits` is done to the bytes of a raster without a failure. -/
theorem paint_of (hr : r.Countable) (ho : o.Fits r) : (of r).paint o = some (of (o.on r)) := by
  cases o with
  | fill x y w h c => exact fill_of hr ..
  | clear x y w h => exact clear_of hr ..
  | put x y w h bitmap => exact put_bytes_of hr ho bitmap
  | shiftUp k => exact shiftUp_of hr k.toNat
  | overlay top => exact overlay_of ho
  | copy source => exact copy_of ho

/-- An operation, whether it `Fits` or not, changes neither the sides of a raster nor the number of
    its bytes, if it does not fail. -/
theorem sameForm_paint (h : f.paint o = some g) : g.SameForm f := by
  cases o with
  | fill x y w h c => exact sameForm_fill h
  | clear x y w h => exact sameForm_fill h
  | put x y w h bitmap => exact sameForm_put h
  | shiftUp k => exact sameForm_shiftUp h
  | overlay top => exact sameForm_overlay h
  | copy source => exact sameForm_copy h

/-! ### All that can be made -/

/-- A `Flat` raster that a machine makes without a failure: a new one, that of the averages of one,
    or one that something was done to. -/
inductive Made : Flat → Prop
  | new {f : Flat} (width height : UInt64) (h : Flat.new width.toNat height.toNat = some f) : Made f
  | reduce {f g : Flat} (hf : Made f) (factor : UInt64) (h : f.reduce factor.toNat = some g) :
    Made g
  | paint {f g : Flat} (hf : Made f) (o : Operation) (h : f.paint o = some g) : Made g

theorem Made.complete (hf : f.Made) : f.Complete := by
  induction hf with
  | new width height h => exact complete_new width.toNat_lt height.toNat_lt h
  | reduce _ factor h ih => exact complete_reduce ih h
  | paint _ o h ih => exact ih.of_sameForm (sameForm_paint h)

/-- Every raster that there is room for is one that can be `Made`, by putting its own pixels on a
    new one. -/
theorem made_of (hr : r.Countable) (hroom : r.width * r.height * 4 < 2 ^ 63) :
    (of r).Made := by
  have hwidth : (UInt64.ofNat r.width).toNat = r.width := UInt64.toNat_ofNat_of_lt' hr.width
  have hheight : (UInt64.ofNat r.height).toNat = r.height := UInt64.toNat_ofNat_of_lt' hr.height
  -- there is room for the bytes, so a blank raster is not one without any pixels
  have hblank : (Raster.blank r.width r.height).SameSize r := by
    have hsolid : Raster.blank r.width r.height = .solid r.width r.height .transparent :=
      if_pos hr.bytes
    rw [hsolid]
    exact ⟨rfl, rfl⟩
  have hput : (of (Raster.blank r.width r.height)).put 0 0 r.width r.height (pack r.colors)
      = some (of r) := by
    have hdone := put_of (hr.of_sameSize hblank) (x := 0) (y := 0) hr.bytes r.colors.toArray
    rw [put_colors r hr.bytes] at hdone
    exact hdone
  have hnew : (of (Raster.blank r.width r.height)).Made := by
    refine .new (.ofNat r.width) (.ofNat r.height) ?_
    rw [hwidth, hheight]
    exact new_of hroom
  refine .paint hnew (.put 0 0 (.ofNat r.width) (.ofNat r.height) (pack r.colors)) ?_
  show (of (Raster.blank r.width r.height)).put 0 0 (UInt64.ofNat r.width).toNat
    (UInt64.ofNat r.height).toNat (pack r.colors) = _
  rw [hwidth, hheight]
  exact hput

/-- **What is done to any raster that can be made.** If a flat raster is `Made`, it has four bytes
    for each pixel, and they are those of a raster, whose pixels are read from them. An `Operation`
    that `Fits` is done to it by `paint` without a failure, whatever its numbers are: it makes the
    bytes of the raster that it should leave, which has the same size, and on which every pixel is
    what the operation `shows`, or what it was before. -/
theorem paints_exactly (hf : f.Made) :
    f.data.length = f.width * f.height * 4
      ∧ ∃ r : Raster, f = of r ∧ f.data = r.toBytes.data.toList
        ∧ (∀ x y, f.pixel x y = some (r.pixel? x y))
        ∧ ∀ o : Operation, o.Fits r →
            f.paint o = some (of (o.on r)) ∧ (o.on r).SameSize r
              ∧ ∀ x y, x < r.width → y < r.height → (o.on r).pixel? x y = o.shows r x y := by
  obtain ⟨r, hr, rfl⟩ := hf.complete.exists_raster
  refine ⟨hf.complete.length_eq, r, rfl, r.toList_toBytes.symm, pixel_of hr, fun o ho => ?_⟩
  exact ⟨paint_of hr ho, o.sameSize_on r, fun x y hx hy => Operation.pixel?_on ho hx hy⟩

/-- A case of `paints_exactly`, with a bitmap of four columns and two rows that is one byte too
    short for the part of its last row that falls on the raster: only the first row is put, as far
    as the raster goes. -/
theorem paints_exactly_short_bitmap :
    let f : Flat := of (.generate 3 2 fun x y => ⟨UInt8.ofNat x, UInt8.ofNat y, 7, 255⟩)
    let o : Operation := .put 1 0 4 2 ((List.range 23).map fun n => UInt8.ofNat (100 + n))
    f.Made ∧ f.data.length = 24
      ∧ (∃ r : Raster, f = of r ∧ o.Fits r ∧ f.paint o = some (of (o.on r))
        ∧ (o.on r).pixel? 1 0 = o.shows r 1 0 ∧ (o.on r).pixel? 1 1 = o.shows r 1 1)
      ∧ (f.paint o).map Flat.data
        = some [0, 0, 7, 255, 100, 101, 102, 103, 104, 105, 106, 107,
          0, 1, 7, 255, 1, 1, 7, 255, 2, 1, 7, 255] := by
  intro f o
  have hmade : f.Made := made_of ⟨by decide, by decide, by decide⟩ (by decide)
  obtain ⟨hlength, r, hr, -, -, hpainted⟩ := paints_exactly hmade
  have hfits : o.Fits r := by
    show 4 * 2 * 4 < UInt64.size
    decide
  have hwidth : 3 = r.width := congrArg Flat.width hr
  have hheight : 2 = r.height := congrArg Flat.height hr
  obtain ⟨hpaint, -, hpixel⟩ := hpainted o hfits
  exact ⟨hmade, hlength, ⟨r, hr, hfits, hpaint, hpixel 1 0 (by omega) (by omega),
    hpixel 1 1 (by omega) (by omega)⟩, by decide +kernel⟩

end Machine.Flat

end TextArt
