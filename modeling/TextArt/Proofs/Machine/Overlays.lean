import TextArt.Proofs.Machine.Flat

namespace TextArt

/-!
# Overlays — one run of bytes over another

A raster is laid over another one pixel by pixel.  The channels of two pixels are blended in four
bytes, and the result must be a byte again.

* `Color.blend_lt`, `Color.coverage_lt` — it always is one;
* `Machine.lay` — a pixel over another, and `Machine.overlayPixels` — pixels over others;
* `Machine.Flat.overlay`, `Machine.Flat.copy` — a raster over another one of its size, and one in
  place of another, which fail for rasters of different sizes;
* `Machine.Flat.overlay_of`, `Machine.Flat.copy_of` — for rasters of one size nothing of this fails,
  and it comes to what is done to the rasters.
-/

/-! ### Bytes of two pixels -/

namespace Color

/-- Two bytes, weighted by what makes up a byte, make up no more than the largest byte, so `quad`
    can hold the sum. -/
theorem weighted_le (a top below : UInt8) :
    top.toNat * a.toNat + below.toNat * (255 - a.toNat) ≤ 255 * 255 := by
  have ha : a.toNat < 256 := a.toNat_lt
  have htop : top.toNat * a.toNat ≤ 255 * a.toNat :=
    Nat.mul_le_mul_right _ (Nat.le_of_lt_succ top.toNat_lt)
  have hbelow : below.toNat * (255 - a.toNat) ≤ 255 * (255 - a.toNat) :=
    Nat.mul_le_mul_right _ (Nat.le_of_lt_succ below.toNat_lt)
  omega

theorem blend_lt (a top below : UInt8) :
    (top.toNat * a.toNat + below.toNat * (255 - a.toNat) + 127) / 255 < UInt8.size := by
  have hsum := weighted_le a top below
  unfold UInt8.size
  omega

theorem coverage_lt (a below : UInt8) :
    a.toNat + (below.toNat * (255 - a.toNat) + 127) / 255 < UInt8.size := by
  -- to cover as much as `a` does is to show of a solid colour what `a` leaves
  have hsum := weighted_le a 255 below
  have hsolid : (255 : UInt8).toNat = 255 := rfl
  rw [hsolid] at hsum
  unfold UInt8.size
  omega

end Color

namespace Machine

/-- A channel of one pixel over that of another; `a` and `rest` make up a byte. -/
def blend (a rest : Nat) (top below : UInt8) : Option UInt8 := do
  let front ← quad (top.toNat * a)
  let back ← quad (below.toNat * rest)
  let both ← quad (front + back)
  let sum ← quad (both + 127)
  let q ← quotient sum 255
  let b ← byte q
  pure (UInt8.ofNat b)

/-- The `alpha` of one pixel over that of another. -/
def coverage (a rest : Nat) (below : UInt8) : Option UInt8 := do
  let back ← quad (below.toNat * rest)
  let sum ← quad (back + 127)
  let q ← quotient sum 255
  let total ← quad (a + q)
  let b ← byte total
  pure (UInt8.ofNat b)

/-- One pixel over another, each channel by `quad` arithmetic. -/
def lay (top below : Color) : Option Color :=
  if top.alpha = 0 then some below
  else if top.alpha = 255 then some top
  else do
    let a := top.alpha.toNat
    let rest ← minus 255 a
    let red ← blend a rest top.red below.red
    let green ← blend a rest top.green below.green
    let blue ← blend a rest top.blue below.blue
    let alpha ← coverage a rest below.alpha
    pure { red, green, blue, alpha }

/-- The bytes of pixels laid over those of others, which stay where nothing is laid over them. -/
def overlayPixels : Bytes → Bytes → Option Bytes
  | red :: green :: blue :: alpha :: top, red' :: green' :: blue' :: alpha' :: below => do
    let pixel ← lay ⟨red, green, blue, alpha⟩ ⟨red', green', blue', alpha'⟩
    let rest ← overlayPixels top below
    pure (pixel.bytes ++ rest)
  | _, below => some below

theorem blend_eq (a top below : UInt8) :
    blend a.toNat (255 - a.toNat) top below = some (Color.blend a top below) := by
  have hsum := Color.weighted_le a top below
  have hbyte := Color.blend_lt a top below
  have hfour : 255 * 255 + 127 < UInt32.size := by decide
  rw [blend, quad_eq (by omega)]
  simp only [Option.bind_eq_bind, Option.bind_some]
  rw [quad_eq (by omega), Option.bind_some, quad_eq (by omega), Option.bind_some,
    quad_eq (by omega), Option.bind_some, quotient_eq (by decide), Option.bind_some,
    byte_eq hbyte, Option.bind_some]
  rfl

theorem coverage_eq (a below : UInt8) :
    coverage a.toNat (255 - a.toNat) below = some (Color.coverage a below) := by
  have hsum := Color.weighted_le a 0 below
  have hbyte := Color.coverage_lt a below
  have hfour : 255 * 255 + 127 < UInt32.size := by decide
  have hsize : UInt8.size < UInt32.size := by decide
  rw [coverage, quad_eq (by omega)]
  simp only [Option.bind_eq_bind, Option.bind_some]
  rw [quad_eq (by omega), Option.bind_some, quotient_eq (by decide), Option.bind_some,
    quad_eq (by omega), Option.bind_some, byte_eq hbyte, Option.bind_some]
  rfl

/-- A pixel is laid over another one by `lay` without a failure, and it is the one that `Color.onto`
    makes. -/
theorem lay_eq (top below : Color) : lay top below = some (top.onto below) := by
  have halpha : top.alpha.toNat ≤ 255 := Nat.le_of_lt_succ top.alpha.toNat_lt
  unfold lay Color.onto
  split
  · rfl
  split
  · rfl
  dsimp only
  rw [minus_eq halpha]
  simp only [Option.bind_eq_bind, Option.bind_some, blend_eq, coverage_eq]
  rfl

/-- To lay the bytes of pixels over those of as many others is to lay the pixels over them by
    `Color.onto`. -/
theorem overlayPixels_pack {cs ds : List Color} (h : cs.length = ds.length) :
    overlayPixels (pack cs) (pack ds) = some (pack (List.zipWith Color.onto cs ds)) := by
  induction cs generalizing ds with
  | nil =>
    obtain rfl := List.length_eq_zero_iff.mp h.symm
    rfl
  -- as many pixels are below as above, so both have another one or neither has
  | cons c cs ih =>
    cases ds with
    | nil => exact absurd h (Nat.succ_ne_zero _)
    | cons d ds =>
      show (do
        let pixel ← lay c d
        let rest ← overlayPixels (pack cs) (pack ds)
        pure (pixel.bytes ++ rest)) = _
      rw [lay_eq, ih (Nat.succ.inj h)]
      rfl

/-- Laying pixels over others by `overlayPixels` adds no bytes and takes none away. -/
theorem length_overlayPixels {top below data : Bytes} (h : overlayPixels top below = some data) :
    data.length = below.length := by
  induction top, below using overlayPixels.induct generalizing data with
  | case1 red green blue alpha top red' green' blue' alpha' below ih =>
    simp only [overlayPixels, Option.bind_eq_bind, Option.bind_eq_some_iff] at h
    obtain ⟨pixel, -, rest, hrest, hdata⟩ := h
    obtain rfl := Option.some.inj hdata
    rw [List.length_append, ih hrest]
    show 4 + below.length = below.length + 4
    exact Nat.add_comm ..
  | case2 top below hnone =>
    rw [overlayPixels] at h
    · exact (Option.some.inj h) ▸ rfl
    · exact hnone

namespace Flat

/-! ### Two rasters -/

/-- Lay the raster `top` over this one. That they have one size is checked first. -/
def overlay (f top : Flat) : Option Flat :=
  if f.width = top.width ∧ f.height = top.height then do
    let data ← overlayPixels top.data f.data
    pure { f with data }
  else none

/-- The bytes of the raster `source` in place of these. That they have one size is checked first. -/
def copy (f source : Flat) : Option Flat :=
  if f.width = source.width ∧ f.height = source.height ∧ f.data.length = source.data.length then
    some { f with data := source.data }
  else none

variable {r s : Raster}

/-- The `colors` of an overlay are those of the top over those of the raster. -/
theorem colors_overlay (h : r.SameSize s) :
    List.zipWith Color.onto s.colors r.colors = (r.overlay s).colors := by
  refine Raster.eq_colors ?_ fun i _ => ?_
  · rw [List.length_zipWith, Raster.length_colors, Raster.length_colors, ← h.1, ← h.2,
      Nat.min_self, Raster.width_overlay, Raster.height_overlay]
  · rw [List.getElem?_zipWith, Raster.pixel?_overlay r h, Raster.width_overlay,
      Raster.getElem?_colors, Raster.getElem?_colors, ← h.1]
    cases s.pixel? (i % r.width) (i / r.width) <;> cases r.pixel? (i % r.width) (i / r.width) <;>
      rfl

/-- The bytes of a raster are laid over those of another one of its size without a failure, and they
    are those of `Raster.overlay`. -/
theorem overlay_of (h : r.SameSize s) : (of r).overlay (of s) = some (of (r.overlay s)) := by
  have hlength : s.colors.length = r.colors.length := by
    rw [Raster.length_colors, Raster.length_colors, h.1, h.2]
  have hdata : overlayPixels (of s).data (of r).data = some (of (r.overlay s)).data := by
    show overlayPixels (pack s.colors) (pack r.colors) = some (pack (r.overlay s).colors)
    rw [overlayPixels_pack hlength, colors_overlay h]
  have hsize : (r.overlay s).SameSize r := ⟨r.width_overlay s, r.height_overlay s⟩
  rw [overlay, if_pos (show (of r).width = (of s).width ∧ (of r).height = (of s).height from h),
    hdata]
  exact congrArg some (with_data_of hsize)

/-- The bytes of a raster of the `SameSize` are copied without a failure. -/
theorem copy_of (h : r.SameSize s) : (of r).copy (of s) = some (of (r.copy s)) := by
  have hlength : (of r).data.length = (of s).data.length := by
    show (pack r.colors).length = (pack s.colors).length
    rw [length_pack, length_pack, Raster.length_colors, Raster.length_colors, h.1, h.2]
  have hcopy : r.copy s = s := if_pos h
  rw [copy, if_pos ⟨h.1, h.2, hlength⟩, hcopy]
  exact congrArg some (with_data_of h.symm)

end Flat

end Machine

end TextArt
