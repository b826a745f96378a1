import TextArt.Proofs.Machine.Filter
import TextArt.Proofs.Machine.Overlays

namespace TextArt

/-!
# Pixels — what is found in a run of bytes

A run of bytes is read four bytes at a time.  A bitmap may be any run of bytes; the few bytes at its
end that make no pixel are not looked at.

* `Machine.pixelAt`, `Machine.Flat.pixel` — a pixel of a run of bytes, and of a flat raster;
* `Machine.Flat.pixel_of` — the pixels of a raster are read from its bytes without a failure;
* `Machine.Flat.put_bytes_of` — any bytes can be put on a raster as a bitmap;
* `Machine.Flat.Complete` — a flat raster has four bytes for each of its pixels, all of which can
  be counted; `Machine.Flat.Complete.exists_raster` says that it is that of a raster;
* `Machine.Flat.SameForm` — the sides of two flat rasters, and the lengths of their bytes, are the
  same, as they are before and after every operation that does not fail.
-/

namespace Machine

/-! ### Runs of bytes -/

/-- The colour of the `i`-th pixel, if all of its bytes are there. -/
def pixelAt (bytes : Bytes) (i : Nat) : Option Color := do
  let red ← bytes[i * 4]?
  let green ← bytes[i * 4 + 1]?
  let blue ← bytes[i * 4 + 2]?
  let alpha ← bytes[i * 4 + 3]?
  pure { red, green, blue, alpha }

/-- Bytes that do not begin with `red`, `green`, `blue` and `alpha` are too few for a pixel. -/
theorem length_lt_four {bytes : Bytes}
    (h : ∀ red green blue alpha rest, bytes ≠ red :: green :: blue :: alpha :: rest) :
    bytes.length < 4 := by
  rcases bytes with _ | ⟨red, _ | ⟨green, _ | ⟨blue, _ | ⟨alpha, rest⟩⟩⟩⟩
  case cons.cons.cons.cons => exact absurd rfl (h red green blue alpha rest)
  all_goals simp

theorem getElem?_colorsOfBytes (bytes : Bytes) (i : Nat) :
    (Raster.colorsOfBytes bytes)[i]? = pixelAt bytes i := by
  induction bytes using Raster.colorsOfBytes.induct generalizing i with
  | case1 red green blue alpha rest ih =>
    cases i with
    | zero => rfl
    | succ i =>
      rw [pixelAt, Nat.succ_mul]
      exact ih i
  | case2 bytes hnone =>
    -- fewer than four bytes are left, so the last byte of a pixel is missing
    have hlast : bytes[i * 4 + 3]? = none :=
      List.getElem?_eq_none (by have := length_lt_four hnone; omega)
    rw [Raster.colorsOfBytes, List.getElem?_nil, pixelAt, hlast]
    · simp
    · exact hnone

/-- Bytes are those of the pixels that `Raster.colorsOfBytes` finds, with less than a pixel after
    them. -/
theorem exists_pack_append (bytes : Bytes) :
    ∃ rest, rest.length < 4 ∧ bytes = pack (Raster.colorsOfBytes bytes) ++ rest := by
  induction bytes using Raster.colorsOfBytes.induct with
  | case1 red green blue alpha bytes ih =>
    obtain ⟨rest, hlength, heq⟩ := ih
    refine ⟨rest, hlength, ?_⟩
    rw [Raster.colorsOfBytes]
    show red :: green :: blue :: alpha :: bytes
      = red :: green :: blue :: alpha :: (pack (Raster.colorsOfBytes bytes) ++ rest)
    rw [← heq]
  | case2 bytes hnone =>
    refine ⟨bytes, length_lt_four hnone, ?_⟩
    rw [Raster.colorsOfBytes]
    · rfl
    · exact hnone

/-- To the next integer, a quotient is not larger than what is divided, so `ceilQuotient` stays in a
    word. -/
theorem ceilQuotient_lt {a b q : Nat} (hb : b ≠ 0) (ha : a < UInt64.size)
    (h : ceilQuotient a b = some q) : q < UInt64.size := by
  have hpos : 0 < b := Nat.pos_of_ne_zero hb
  rw [ceilQuotient_eq hb ha] at h
  obtain rfl := Option.some.inj h
  exact Nat.lt_of_le_of_lt (Raster.blocks_le a hpos) ha

namespace Flat

/-! ### Pixels of a flat raster -/

/-- The colour at a place, if the place is on the raster; the outer `Option` is a failure. -/
def pixel (f : Flat) (x y : Nat) : Option (Option Color) :=
  if x < f.width ∧ y < f.height then do
    let start ← f.offset x y
    let four ← slice f.data start (start + 4)
    pure (pixelAt four 0)
  else some none

variable {r : Raster}

/-- A `pixel` of a raster is read from its bytes. -/
theorem pixel_of (hr : r.Countable) (x y : Nat) : (of r).pixel x y = some (r.pixel? x y) := by
  unfold pixel
  split
  · next hon =>
    obtain ⟨hx, hy⟩ : x < r.width ∧ y < r.height := hon
    obtain ⟨c, hc⟩ := Option.isSome_iff_exists.mp ((r.isSome_pixel?_iff x y).mpr ⟨hx, hy⟩)
    have hpart : r.rowPart x (x + 1) y = [c] := by
      have hone : (r.rowPart x (x + 1) y).length = 1 := by
        rw [Raster.length_rowPart hx hy]
        omega
      obtain ⟨d, hd⟩ := List.length_eq_one_iff.mp hone
      have hfirst : (r.rowPart x (x + 1) y)[0]? = r.pixel? (x + 0) y :=
        Raster.getElem?_rowPart hx (by omega)
      rw [hd, Nat.add_zero, hc] at hfirst
      rw [hd, Option.some.inj hfirst]
    -- the four bytes of the pixel are the part of its row that is one pixel long
    have hfour : slice (of r).data ((y * r.width + x) * 4) ((y * r.width + (x + 1)) * 4)
        = some (pack [c]) := hpart ▸ Raster.slice_rowPart (Nat.le_succ x) hx hy
    have hend : (y * r.width + x) * 4 + 4 = (y * r.width + (x + 1)) * 4 := by omega
    rw [offset_of hr (Nat.le_of_lt hx) hy, hc]
    simp only [Option.bind_eq_bind, Option.bind_some]
    rw [hend, hfour]
    rfl
  · next hoff =>
    have hnone : r.width ≤ x ∨ r.height ≤ y := by
      have hoff : ¬ (x < r.width ∧ y < r.height) := hoff
      omega
    rw [(r.pixel?_eq_none_iff x y).mpr hnone]

/-! ### Bitmaps of any length -/

/-- Bytes after the pixels of a bitmap that make no pixel are never reached by `putRows`. -/
theorem putRows_append (cs : List Color) {rest : Bytes} (hrest : rest.length < 4)
    (x y w columns row n : Nat) (f : Flat) :
    putRows (pack cs ++ rest) x y w (columns * 4) row n f
      = putRows (pack cs) x y w (columns * 4) row n f := by
  induction n generalizing row f with
  | zero => rfl
  | succ n ih =>
    unfold putRows
    refine Option.bind_congr fun above _ => Option.bind_congr fun pixels _ =>
      Option.bind_congr fun start hstart => Option.bind_congr fun stop hstop => ?_
    -- the part of a row ends where a pixel does
    obtain ⟨-, rfl⟩ := word_eq_some_iff.mp hstart
    obtain ⟨-, rfl⟩ := word_eq_some_iff.mp hstop
    have hlength := length_pack cs
    rw [List.length_append]
    by_cases hshort : (pack cs).length < pixels * 4 + columns * 4
    · rw [if_pos hshort, if_pos (by omega)]
    · rw [if_neg hshort, if_neg (by omega), slice_append (by omega)]
      simp only [ih]

/-- Any bytes can be `put` on a raster as a bitmap. -/
theorem put_bytes_of (hr : r.Countable) {x y w h : Nat} (hbitmap : w * h * 4 < UInt64.size)
    (bitmap : Bytes) :
    (of r).put x y w h bitmap
      = some (of (r.put x y w h (Raster.colorsOfBytes bitmap).toArray)) := by
  obtain ⟨rest, hrest, heq⟩ := exists_pack_append bitmap
  -- rows of whole pixels never come to the bytes that make no pixel
  have hpixels : (of r).put x y w h bitmap
      = (of r).put x y w h (pack (Raster.colorsOfBytes bitmap)) := by
    unfold put
    dsimp only
    split
    · refine Option.bind_congr fun columns _ => Option.bind_congr fun span hspan => ?_
      obtain ⟨-, rfl⟩ := word_eq_some_iff.mp hspan
      rw [heq, putRows_append _ hrest, ← heq]
    · rfl
  rw [hpixels]
  exact put_of hr hbitmap (Raster.colorsOfBytes bitmap).toArray

/-! ### Complete rasters -/

/-- There are four bytes for each pixel in `data`, and the sides and the bytes can be counted. -/
structure Complete (f : Flat) : Prop where
  width : f.width < UInt64.size
  height : f.height < UInt64.size
  length_eq : f.data.length = f.width * f.height * 4
  length_lt : f.data.length < UInt64.size

/-- A `Complete` flat raster, with four bytes for each pixel, is that of a raster. -/
theorem Complete.exists_raster {f : Flat} (h : f.Complete) :
    ∃ r : Raster, r.Countable ∧ f = of r := by
  let cs := Raster.colorsOfBytes f.data
  let r := Raster.generate f.width f.height fun x y => cs.getD (y * f.width + x) .transparent
  have hlength : cs.length = f.width * f.height := by
    show (Raster.colorsOfBytes f.data).length = _
    rw [Raster.length_colorsOfBytes, h.length_eq, Nat.mul_div_cancel _ (by decide)]
  have hcolors : cs = r.colors := by
    refine Raster.eq_colors hlength fun i hi => ?_
    have hi : i < f.width * f.height := hi
    have hpos : 0 < f.width := Nat.pos_of_lt_mul_right hi
    have hplace : i / f.width * f.width + i % f.width = i := Nat.div_add_mod' ..
    have hpixel : r.pixel? (i % f.width) (i / f.width) = some _ :=
      Raster.pixel?_generate _ (Nat.mod_lt i hpos) (Nat.div_lt_of_lt_mul hi)
    show _ = r.pixel? (i % f.width) (i / f.width)
    rw [hpixel, hplace, List.getD_eq_getElem?_getD, List.getElem?_eq_getElem (hlength ▸ hi)]
    rfl
  have hdata : f.data = pack r.colors := by
    obtain ⟨rest, hrest, heq⟩ := exists_pack_append f.data
    -- the bytes of whole pixels leave no other ones
    have hnone : rest = [] := by
      have hsum := congrArg List.length heq
      rw [List.length_append, length_pack, h.length_eq] at hsum
      exact List.eq_nil_of_length_eq_zero (by omega)
    rw [hnone, List.append_nil] at heq
    exact heq.trans (congrArg pack hcolors)
  refine ⟨r, ⟨h.width, h.height, h.length_eq ▸ h.length_lt⟩, ?_⟩
  obtain ⟨width, height, data⟩ := f
  exact congrArg (Flat.mk width height) hdata

/-! ### Forms -/

/-- The sides of two `Flat` rasters and the lengths of their bytes are the same. -/
structure SameForm (g f : Flat) : Prop where
  width_eq : g.width = f.width
  height_eq : g.height = f.height
  length_eq : g.data.length = f.data.length

variable {f g top source : Flat}

theorem SameForm.refl (f : Flat) : f.SameForm f := ⟨rfl, rfl, rfl⟩

/-- New bytes, as many as before, give a flat raster of the `SameForm`. -/
theorem SameForm.with_data (h : g.SameForm f) {data : Bytes} (hdata : data.length = g.data.length) :
    { g with data }.SameForm f :=
  ⟨h.width_eq, h.height_eq, hdata.trans h.length_eq⟩

theorem Complete.of_sameForm (hf : f.Complete) (h : g.SameForm f) : g.Complete where
  width := h.width_eq ▸ hf.width
  height := h.height_eq ▸ hf.height
  length_eq := by rw [h.length_eq, h.width_eq, h.height_eq, hf.length_eq]
  length_lt := h.length_eq ▸ hf.length_lt

theorem sameForm_fill {x y w h : Nat} {c : Color} (hfill : f.fill x y w h c = some g) :
    g.SameForm f := by
  unfold fill at hfill
  dsimp only at hfill
  split at hfill
  · refine loop_preserves (P := (·.SameForm f)) (fun row a b ha hrow => ?_) (.refl f) hfill
    simp only [fillRow, Option.bind_eq_bind, Option.bind_eq_some_iff] at hrow
    obtain ⟨start, -, stop, -, span, -, data, hdata, hb⟩ := hrow
    obtain rfl := Option.some.inj hb
    exact ha.with_data (length_copyInto hdata)
  · exact Option.some.inj hfill ▸ .refl f

theorem sameForm_putRows {bitmap : Bytes} {x y w span row n : Nat} {a : Flat} (ha : a.SameForm f)
    (hput : putRows bitmap x y w span row n a = some g) : g.SameForm f := by
  induction n generalizing row a with
  | zero => exact Option.some.inj hput ▸ ha
  | succ n ih =>
    simp only [putRows, Option.bind_eq_bind, Option.bind_eq_some_iff] at hput
    obtain ⟨above, -, pixels, -, start, -, stop, -, hput⟩ := hput
    split at hput
    · exact Option.some.inj hput ▸ ha
    · simp only [Option.bind_eq_some_iff] at hput
      obtain ⟨part, -, place, -, data, hdata, hrest⟩ := hput
      exact ih (ha.with_data (length_copyInto hdata)) hrest

theorem sameForm_put {x y w h : Nat} {bitmap : Bytes} (hput : f.put x y w h bitmap = some g) :
    g.SameForm f := by
  unfold put at hput
  dsimp only at hput
  split at hput
  · simp only [Option.bind_eq_bind, Option.bind_eq_some_iff] at hput
    obtain ⟨columns, -, span, -, hrows⟩ := hput
    exact sameForm_putRows (.refl f) hrows
  · exact Option.some.inj hput ▸ .refl f

theorem sameForm_shiftUp {k : Nat} (hshift : f.shiftUp k = some g) : g.SameForm f := by
  unfold shiftUp at hshift
  split at hshift
  · exact Option.some.inj hshift ▸ .refl f
  · simp only [Option.bind_eq_bind, Option.bind_eq_some_iff] at hshift
    obtain ⟨stride, -, start, -, moved, -, data, hdata, hg⟩ := hshift
    obtain rfl := Option.some.inj hg
    exact (SameForm.refl f).with_data (length_copyInto hdata)

theorem sameForm_overlay (hover : f.overlay top = some g) : g.SameForm f := by
  unfold overlay at hover
  split at hover
  · obtain ⟨data, hdata, hg⟩ := Option.bind_eq_some_iff.mp hover
    obtain rfl := Option.some.inj hg
    exact (SameForm.refl f).with_data (length_overlayPixels hdata)
  · cases hover

theorem sameForm_copy (hcopy : f.copy source = some g) : g.SameForm f := by
  unfold copy at hcopy
  split at hcopy
  · next hsize =>
    obtain rfl := Option.some.inj hcopy
    exact (SameForm.refl f).with_data hsize.2.2.symm
  · cases hcopy

/-- A `new` flat raster is `Complete`. -/
theorem complete_new {width height : Nat} (hwidth : width < UInt64.size)
    (hheight : height < UInt64.size) (hnew : new width height = some f) : f.Complete := by
  unfold new at hnew
  split at hnew
  · next n hn =>
    -- the count of bytes went through a word, so it fits
    obtain ⟨pixels, hpixels, hbytes⟩ := Option.bind_eq_some_iff.mp hn
    obtain ⟨data, hdata, rfl⟩ := Option.map_eq_some_iff.mp hnew
    obtain ⟨-, rfl⟩ := word_eq_some_iff.mp hpixels
    obtain ⟨hlt, rfl⟩ := word_eq_some_iff.mp hbytes
    have hlength : data.length = width * height * 4 := by
      unfold zeros at hdata
      split at hdata
      · obtain rfl := Option.some.inj hdata
        exact List.length_replicate
      · cases hdata
    exact ⟨hwidth, hheight, hlength, hlength ▸ hlt⟩
  · obtain rfl := Option.some.inj hnew
    exact ⟨by decide, by decide, rfl, by decide⟩

/-- The raster that `reduce` makes of a `Complete` one is complete. -/
theorem complete_reduce {factor : Nat} (hf : f.Complete) (hreduce : f.reduce factor = some g) :
    g.Complete := by
  unfold reduce at hreduce
  split at hreduce
  · exact Option.some.inj hreduce ▸ hf
  · simp only [Option.bind_eq_bind, Option.bind_eq_some_iff] at hreduce
    obtain ⟨columns, hcolumns, rows, hrows, pixels, -, room, -, means, -, blank, hblank, hput⟩ :=
      hreduce
    have hne : factor ≠ 0 := by omega
    have hnew : blank.Complete := complete_new (ceilQuotient_lt hne hf.width hcolumns)
      (ceilQuotient_lt hne hf.height hrows) hblank
    exact hnew.of_sameForm (sameForm_put hput)

end Flat

end Machine

end TextArt
