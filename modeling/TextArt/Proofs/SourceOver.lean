import TextArt.Proofs.Averages
import TextArt.Proofs.Machine.Overlays
import Mathlib.Tactic.Linarith
import Mathlib.Tactic.Ring

namespace TextArt

/-!
# Source-over — what is seen of a picture under another one

A colour that hides a part of what is below it is seen together with the rest of that, each of the
two as far as it covers the place.  A blend weighs the two by the top alone, as if what is below
were solid.  Where it is not, a blend shows too much of it.

* `Color.opacityOver`, `Color.valueOver` — the alpha and the channels of one colour over another;
* `Color.IsOver` — a colour that comes to these, up to one in each channel;
* `Color.onto_eq` — transparent and solid tops are no special cases of blends, and
  `Color.hue_onto_eq_round` says what these come to;
* `Color.blended_eq` — the value of a blend misses the right one by `Color.shortfall`, and
  `Color.shortfall_eq_zero_iff` says when that is nothing;
* `Color.isOver_onto_iff` — so a blend is right exactly if the shortfall and the rounding come to at
  most one;
* `Color.white_fades_over_nothing` — it is wrong for a translucent colour over nothing;
* `Color.Laid` — what is true of any colour laid over any other;
* `Raster.overlay_laid` — **what an overlay shows**, that it changes nothing or everything if the
  top is transparent or solid, and that its bytes are computed without an overflow.
-/

namespace Color

/-- The channels of a `Color` that tell how it looks, as far as it is seen. -/
def hues : List (Color → UInt8) :=
  [red, green, blue]

/-- The share of a place that a colour covers: its `alpha` out of 255. -/
def opacity (c : Color) : ℚ :=
  (c.alpha.toNat : ℚ) / 255

/-- The share of a place that two colours cover, `below` covering a part of the rest that `top`
    leaves. -/
def opacityOver (top below : Color) : ℚ :=
  top.opacity + below.opacity * (1 - top.opacity)

/-- The mean of a `channel` of two colours, weighted by what they cover. -/
def valueOver (channel : Color → UInt8) (top below : Color) : ℚ :=
  ((channel top).toNat * top.opacity + (channel below).toNat * below.opacity * (1 - top.opacity))
    / top.opacityOver below

/-- The colour `c` is that of `top` over `below`, up to one in each channel. Where nothing is
    covered, no channel but the `alpha` is seen. -/
structure IsOver (c top below : Color) : Prop where
  alpha : |(c.alpha.toNat : ℚ) - 255 * top.opacityOver below| ≤ 1
  hue : 0 < top.opacityOver below → ∀ channel ∈ hues,
    |((channel c).toNat : ℚ) - valueOver channel top below| ≤ 1

/-- A `channel` of a colour over a solid one. -/
def blended (channel : Color → UInt8) (top below : Color) : ℚ :=
  (channel top).toNat * top.opacity + (channel below).toNat * (1 - top.opacity)

/-- What `blended` leaves out of the difference of two colours, by taking the lower one for
    solid. -/
def shortfall (channel : Color → UInt8) (top below : Color) : ℚ :=
  ((channel top).toNat - (channel below).toNat)
    * (top.opacity * (1 - top.opacity) * (1 - below.opacity) / top.opacityOver below)

variable {top below c : Color} {channel : Color → UInt8}

/-! ### Shares -/

theorem opacity_eq_zero_iff : c.opacity = 0 ↔ c.alpha = 0 := by
  have hzero : (0 : UInt8).toNat = 0 := rfl
  rw [opacity, div_eq_zero_iff, or_iff_left (by norm_num), Nat.cast_eq_zero, ← UInt8.toNat_inj,
    hzero]

theorem opacity_eq_one_iff : c.opacity = 1 ↔ c.alpha = 255 := by
  have hfull : (255 : UInt8).toNat = 255 := rfl
  rw [opacity, div_eq_one_iff_eq (by norm_num), ← UInt8.toNat_inj, hfull]
  norm_cast

/-- The share that `opacity` leaves is that of the rest of the `alpha`. -/
theorem one_sub_opacity (c : Color) :
    1 - c.opacity = ((255 - c.alpha.toNat : Nat) : ℚ) / 255 := by
  rw [opacity, Nat.cast_sub (Nat.le_of_lt_succ c.alpha.toNat_lt)]
  ring

/-! ### Blends -/

theorem toNat_blend (a t b : UInt8) :
    (blend a t b).toNat = (t.toNat * a.toNat + b.toNat * (255 - a.toNat) + 127) / 255 := by
  rw [blend, UInt8.toNat_ofNat', Nat.mod_eq_of_lt (blend_lt a t b)]

theorem toNat_coverage (a b : UInt8) :
    (coverage a b).toNat = a.toNat + (b.toNat * (255 - a.toNat) + 127) / 255 := by
  rw [coverage, UInt8.toNat_ofNat', Nat.mod_eq_of_lt (coverage_lt a b)]

theorem blend_zero (t b : UInt8) : blend 0 t b = b := by
  have hzero : (0 : UInt8).toNat = 0 := rfl
  rw [← UInt8.toNat_inj, toNat_blend, hzero]
  omega

theorem blend_full (t b : UInt8) : blend 255 t b = t := by
  have hfull : (255 : UInt8).toNat = 255 := rfl
  rw [← UInt8.toNat_inj, toNat_blend, hfull]
  omega

theorem coverage_zero (b : UInt8) : coverage 0 b = b := by
  have hzero : (0 : UInt8).toNat = 0 := rfl
  rw [← UInt8.toNat_inj, toNat_coverage, hzero]
  omega

theorem coverage_full (b : UInt8) : coverage 255 b = 255 := by
  have hfull : (255 : UInt8).toNat = 255 := rfl
  rw [← UInt8.toNat_inj, toNat_coverage, hfull]
  omega

/-- A colour laid `onto` another one is a blend of the two, also if it is transparent or solid. -/
theorem onto_eq (top below : Color) :
    top.onto below
      = { red := blend top.alpha top.red below.red
          green := blend top.alpha top.green below.green
          blue := blend top.alpha top.blue below.blue
          alpha := coverage top.alpha below.alpha } := by
  -- the two ways out of `onto` are what the blend comes to for these alphas
  by_cases hclear : top.alpha = 0
  · rw [onto_of_alpha_zero hclear, hclear, blend_zero, blend_zero, blend_zero, coverage_zero]
  by_cases hsolid : top.alpha = 255
  · rw [onto_of_alpha_full hsolid, hsolid, blend_full, blend_full, blend_full, coverage_full,
      ← hsolid]
  rw [onto, if_neg hclear, if_neg hsolid]

theorem hue_onto (h : channel ∈ hues) (top below : Color) :
    (channel (top.onto below)).toNat
      = ((channel top).toNat * top.alpha.toNat
          + (channel below).toNat * (255 - top.alpha.toNat) + 127) / 255 := by
  rw [onto_eq, ← toNat_blend]
  simp only [hues, List.mem_cons, List.not_mem_nil, or_false] at h
  rcases h with rfl | rfl | rfl <;> rfl

theorem alpha_onto (top below : Color) :
    (top.onto below).alpha.toNat
      = top.alpha.toNat + (below.alpha.toNat * (255 - top.alpha.toNat) + 127) / 255 := by
  rw [onto_eq, ← toNat_coverage]

/-- A channel of a colour laid `onto` another one is the `blended` value, rounded. -/
theorem hue_onto_eq_round (h : channel ∈ hues) (top below : Color) :
    ((channel (top.onto below)).toNat : ℤ) = round (blended channel top below) := by
  have hvalue : blended channel top below
      = (((channel top).toNat * top.alpha.toNat
          + (channel below).toNat * (255 - top.alpha.toNat) : Nat) : ℚ) / (255 : Nat) := by
    rw [blended, one_sub_opacity, opacity]
    push_cast
    ring
  rw [hue_onto h, hvalue, Raster.round_div _ (by decide)]

/-- The `alpha` is always that of `opacityOver`, up to rounding. -/
theorem abs_alpha_onto_le (top below : Color) :
    |((top.onto below).alpha.toNat : ℚ) - 255 * top.opacityOver below| ≤ 1 / 2 := by
  -- the alpha is added exactly, and only the share of what is below is rounded
  have hrest : 255 * top.opacityOver below = top.alpha.toNat
      + ((below.alpha.toNat * (255 - top.alpha.toNat) : Nat) : ℚ) / (255 : Nat) := by
    rw [opacityOver, one_sub_opacity, opacity, opacity]
    push_cast
    ring
  have hround := Raster.round_div (below.alpha.toNat * (255 - top.alpha.toNat))
    (show 0 < 255 by decide)
  have hnear := abs_sub_round
    (((below.alpha.toNat * (255 - top.alpha.toNat) : Nat) : ℚ) / (255 : Nat))
  rw [hround, abs_sub_comm] at hnear
  rw [alpha_onto, hrest, Nat.cast_add, add_sub_add_left_eq_sub]
  exact_mod_cast hnear

/-! ### What a blend leaves out -/

/-- What is `blended` misses the value of source-over by the `shortfall`. -/
theorem blended_eq (hcover : 0 < top.opacityOver below) :
    blended channel top below = valueOver channel top below - shortfall channel top below := by
  rw [valueOver, shortfall, ← mul_div_assoc, ← sub_div, eq_div_iff (ne_of_gt hcover), blended,
    opacityOver]
  ring

/-- The `shortfall` is zero exactly if the top is transparent or solid, or what is below is solid,
    or the two look the same. -/
theorem shortfall_eq_zero_iff (hcover : 0 < top.opacityOver below) :
    shortfall channel top below = 0
      ↔ top.alpha = 0 ∨ top.alpha = 255 ∨ below.alpha = 255 ∨ channel top = channel below := by
  rw [shortfall, mul_eq_zero, div_eq_zero_iff, or_iff_left (ne_of_gt hcover), mul_eq_zero,
    mul_eq_zero, sub_eq_zero, sub_eq_zero, sub_eq_zero, opacity_eq_zero_iff, eq_comm (a := (1 : ℚ)),
    opacity_eq_one_iff, eq_comm (a := (1 : ℚ)), opacity_eq_one_iff, Nat.cast_inj, UInt8.toNat_inj]
  tauto

/-- A colour is laid `onto` another one as `IsOver` demands exactly if the `shortfall` and the
    rounding come to at most one in each channel. -/
theorem isOver_onto_iff :
    (top.onto below).IsOver top below
      ↔ (0 < top.opacityOver below → ∀ channel ∈ hues,
          |round (blended channel top below) - blended channel top below
            - shortfall channel top below| ≤ 1) := by
  -- the error of the result is the rounding of the blend and what the blend leaves out
  have hhue : 0 < top.opacityOver below → ∀ channel ∈ hues,
      ((channel (top.onto below)).toNat : ℚ) - valueOver channel top below
        = round (blended channel top below) - blended channel top below
          - shortfall channel top below := by
    intro hcover channel hchannel
    rw [← hue_onto_eq_round hchannel, blended_eq hcover]
    push_cast
    ring
  constructor
  · intro h hcover channel hchannel
    rw [← hhue hcover channel hchannel]
    exact h.hue hcover channel hchannel
  · intro h
    refine ⟨(abs_alpha_onto_le top below).trans (by norm_num), fun hcover channel hchannel => ?_⟩
    rw [hhue hcover channel hchannel]
    exact h hcover channel hchannel

/-- Rounding alone is never too much, so a `shortfall` of one half is not, either. -/
theorem isOver_onto_of_shortfall_le
    (h : 0 < top.opacityOver below → ∀ channel ∈ hues, |shortfall channel top below| ≤ 1 / 2) :
    (top.onto below).IsOver top below := by
  refine isOver_onto_iff.mpr fun hcover channel hchannel => ?_
  have hround := abs_sub_round (blended channel top below)
  rw [abs_sub_comm] at hround
  -- each of the two errors is at most one half, and they can only add up
  calc |round (blended channel top below) - blended channel top below - shortfall channel top below|
      ≤ |round (blended channel top below) - blended channel top below|
        + |shortfall channel top below| := abs_sub ..
    _ ≤ 1 / 2 + 1 / 2 := add_le_add hround (h hcover channel hchannel)
    _ = 1 := by norm_num

/-- A `shortfall` of more than one and a half is not made good by rounding. -/
theorem not_isOver_onto (hcover : 0 < top.opacityOver below) (hchannel : channel ∈ hues)
    (h : 3 / 2 < |shortfall channel top below|) : ¬ (top.onto below).IsOver top below := by
  intro hover
  have hnear := isOver_onto_iff.mp hover hcover channel hchannel
  have hround := abs_sub_round (blended channel top below)
  rw [abs_le] at hnear hround
  rw [lt_abs] at h
  rcases h with h | h <;> linarith [hnear.1, hnear.2, hround.1, hround.2]

/-- There is no `shortfall` if nothing translucent lies over what is not solid. -/
theorem isOver_onto_of_plain (h : top.alpha = 0 ∨ top.alpha = 255 ∨ below.alpha = 255) :
    (top.onto below).IsOver top below := by
  refine isOver_onto_of_shortfall_le fun hcover channel _ => ?_
  rw [(shortfall_eq_zero_iff hcover).mpr (by tauto), abs_zero]
  norm_num

/-- A colour for which `IsOver` fails: white that covers half of what is below it should stay white
    over nothing, and it becomes grey. -/
theorem white_fades_over_nothing :
    let white : Color := ⟨255, 255, 255, 128⟩
    let r := Raster.solid 1 1 .transparent
    let top := Raster.solid 1 1 white
    r.SameSize top ∧ (r.overlay top).pixel? 0 0 = some ⟨128, 128, 128, 128⟩
      ∧ ¬ (⟨128, 128, 128, 128⟩ : Color).IsOver white .transparent := by
  intro white r top
  have hhalf : (128 : UInt8).toNat = 128 := rfl
  have hfull : (255 : UInt8).toNat = 255 := rfl
  refine ⟨⟨rfl, rfl⟩, by decide +kernel, fun hover => ?_⟩
  have hred := hover.hue (by norm_num [opacityOver, opacity, white, transparent, hhalf]) red
    (List.mem_cons_self ..)
  norm_num [valueOver, opacityOver, opacity, white, transparent, hhalf, hfull] at hred

/-! ### Any two colours -/

/-- What is true of a colour `c` that is made by laying `top` over `below`. -/
structure Laid (c top below : Color) : Prop where
  /-- The `alpha` is that of source-over, up to rounding. -/
  alpha : |(c.alpha.toNat : ℚ) - 255 * top.opacityOver below| ≤ 1
  /-- The colour is that of source-over, if nothing translucent lies over what is not solid. -/
  isOver_of_plain : top.alpha = 0 ∨ top.alpha = 255 ∨ below.alpha = 255 → c.IsOver top below
  /-- In general the colour is that of source-over exactly if the `shortfall` is made good by
      rounding. -/
  isOver_iff : c.IsOver top below ↔ (0 < top.opacityOver below → ∀ channel ∈ hues,
    |round (blended channel top below) - blended channel top below
      - shortfall channel top below| ≤ 1)
  /-- It never is if the `shortfall` is large. -/
  not_isOver : 0 < top.opacityOver below → ∀ channel ∈ hues, 3 / 2 < |shortfall channel top below| →
    ¬ c.IsOver top below
  /-- A transparent `top` is not seen, and a solid one is all that is seen. -/
  of_transparent : top.alpha = 0 → c = below
  of_solid : top.alpha = 255 → c = top
  /-- Over nothing the `alpha` stays, and so does all of the colour exactly if it is solid, or
      almost, or looks like what cannot be seen below it. -/
  over_nothing : below.alpha = 0 → top.alpha ≠ 0 → c.alpha = top.alpha
    ∧ (c = top ↔ ∀ channel ∈ hues,
        |((channel top).toNat : ℤ) - (channel below).toNat| * (255 - top.alpha.toNat) ≤ 127)
  /-- Over what is solid it is solid. -/
  over_solid : below.alpha = 255 → c.alpha = 255
  /-- No channel leaves the range of the two colours. -/
  between : ∀ channel ∈ hues,
    min (channel top).toNat (channel below).toNat ≤ (channel c).toNat
      ∧ (channel c).toNat ≤ max (channel top).toNat (channel below).toNat

/-- A blend of two bytes, as `onto` makes it, lies between them. -/
theorem between_onto (h : channel ∈ hues) (top below : Color) :
    min (channel top).toNat (channel below).toNat ≤ (channel (top.onto below)).toNat
      ∧ (channel (top.onto below)).toNat ≤ max (channel top).toNat (channel below).toNat := by
  let low := min (channel top).toNat (channel below).toNat
  let high := max (channel top).toNat (channel below).toNat
  have ha : top.alpha.toNat + (255 - top.alpha.toNat) = 255 :=
    Nat.add_sub_cancel' (Nat.le_of_lt_succ top.alpha.toNat_lt)
  -- a weighted sum is at least the lesser value with all of the weight
  have hlow : low * 255 ≤ (channel top).toNat * top.alpha.toNat
      + (channel below).toNat * (255 - top.alpha.toNat) := by
    rw [← ha, Nat.mul_add, ha]
    exact Nat.add_le_add (Nat.mul_le_mul_right _ (Nat.min_le_left ..))
      (Nat.mul_le_mul_right _ (Nat.min_le_right ..))
  have hhigh : (channel top).toNat * top.alpha.toNat
      + (channel below).toNat * (255 - top.alpha.toNat) ≤ high * 255 := by
    rw [← ha, Nat.mul_add, ha]
    exact Nat.add_le_add (Nat.mul_le_mul_right _ (Nat.le_max_left ..))
      (Nat.mul_le_mul_right _ (Nat.le_max_right ..))
  rw [hue_onto h]
  show low ≤ _ ∧ _ ≤ high
  omega

/-- A channel of a colour laid `onto` nothing stays if it is not far from that of what is below. -/
theorem hue_onto_eq_iff (h : channel ∈ hues) (top below : Color) :
    channel (top.onto below) = channel top
      ↔ |((channel top).toNat : ℤ) - (channel below).toNat| * (255 - top.alpha.toNat) ≤ 127 := by
  have halpha : top.alpha.toNat ≤ 255 := Nat.le_of_lt_succ top.alpha.toNat_lt
  rw [← UInt8.toNat_inj, hue_onto h]
  -- with the remaining share `d` in the place of a difference, all that is left is linear
  generalize (channel top).toNat = t, (channel below).toNat = b, top.alpha.toNat = a at *
  obtain ⟨d, hd⟩ : ∃ d, a + d = 255 := ⟨255 - a, by omega⟩
  have hrest : 255 - a = d := by omega
  have htop : t * a + t * d = t * 255 := by rw [← Nat.mul_add, hd]
  have hsub : (255 - a : ℤ) = d := by omega
  have hmul : |(t : ℤ) - b| * d = |((t * d : Nat) : ℤ) - ((b * d : Nat) : ℤ)| := by
    rw [Nat.cast_mul, Nat.cast_mul, ← sub_mul, abs_mul, Nat.abs_cast]
  rw [hrest, hsub, hmul, abs_le]
  omega

/-- What is laid `onto` nothing keeps its `alpha`. -/
theorem alpha_onto_of_nothing (h : below.alpha = 0) (top : Color) :
    (top.onto below).alpha = top.alpha := by
  have hzero : (0 : UInt8).toNat = 0 := rfl
  rw [← UInt8.toNat_inj, alpha_onto, h, hzero]
  omega

/-- What is laid `onto` a solid colour makes it no less solid. -/
theorem alpha_onto_of_solid (h : below.alpha = 255) (top : Color) :
    (top.onto below).alpha = 255 := by
  have hfull : (255 : UInt8).toNat = 255 := rfl
  have halpha : top.alpha.toNat ≤ 255 := Nat.le_of_lt_succ top.alpha.toNat_lt
  rw [← UInt8.toNat_inj, alpha_onto, h, hfull]
  omega

/-- A colour is known by its `alpha` and its `hues`. -/
theorem eq_iff_hues (h : c.alpha = top.alpha) :
    c = top ↔ ∀ channel ∈ hues, channel c = channel top := by
  constructor
  · rintro rfl channel _
    rfl
  · intro hhues
    simp only [hues, List.forall_mem_cons] at hhues
    obtain ⟨hred, hgreen, hblue, -⟩ := hhues
    obtain ⟨red, green, blue, alpha⟩ := c
    dsimp only at h hred hgreen hblue
    rw [h, hred, hgreen, hblue]

theorem laid_onto (top below : Color) : (top.onto below).Laid top below where
  alpha := (abs_alpha_onto_le top below).trans (by norm_num)
  isOver_of_plain := isOver_onto_of_plain
  isOver_iff := isOver_onto_iff
  not_isOver := fun hcover _ hchannel => not_isOver_onto hcover hchannel
  of_transparent := fun htop => onto_of_alpha_zero htop below
  of_solid := fun htop => onto_of_alpha_full htop below
  over_nothing := by
    -- the alpha is that of the top, so the colours are equal if their hues are
    intro hbelow _
    have halpha := alpha_onto_of_nothing hbelow top
    refine ⟨halpha, (eq_iff_hues halpha).trans ?_⟩
    exact forall₂_congr fun channel hchannel => hue_onto_eq_iff hchannel top below
  over_solid := fun hbelow => alpha_onto_of_solid hbelow top
  between := fun _ hchannel => between_onto hchannel top below

end Color

namespace Raster

/-! ### Any two rasters -/

/-- What is true of a raster `u` that is made by laying `top` over the raster `r`. -/
structure Overlaid (r top u : Raster) : Prop where
  sameSize : u.SameSize r
  /-- Every pixel is made of those of the two rasters at its place. -/
  laid : ∀ x y t b, top.pixel? x y = some t → r.pixel? x y = some b →
    ∃ c, u.pixel? x y = some c ∧ c.Laid t b
  /-- A transparent raster `top` changes nothing. -/
  of_transparent : (∀ x y t, top.pixel? x y = some t → t.alpha = 0) → u = r
  /-- A solid raster `top` changes all. -/
  of_solid : (∀ x y t, top.pixel? x y = some t → t.alpha = 255) → u = top

variable {r top : Raster}

/-- An `overlay` leaves the pixels of one raster everywhere, if laying any two pixels of a place
    `onto` each other does so. -/
theorem overlay_eq {s : Raster} (h : r.SameSize top) (hs : s.SameSize r)
    (hpixel : ∀ x y t b, top.pixel? x y = some t → r.pixel? x y = some b →
      s.pixel? x y = some (t.onto b)) : r.overlay top = s := by
  refine ext_pixel (hs.1 ▸ width_overlay ..) (hs.2 ▸ height_overlay ..) fun x y => ?_
  rw [pixel?_overlay r h]
  by_cases hon : x < r.width ∧ y < r.height
  · obtain ⟨b, hb⟩ := Option.isSome_iff_exists.mp ((r.isSome_pixel?_iff x y).mpr hon)
    obtain ⟨t, ht⟩ := Option.isSome_iff_exists.mp
      ((top.isSome_pixel?_iff x y).mpr (h.1 ▸ h.2 ▸ hon))
    rw [ht, hb, hpixel x y t b ht hb]
    rfl
  -- off the rasters neither side has a pixel
  · have hoff : r.width ≤ x ∨ r.height ≤ y := by omega
    rw [(top.pixel?_eq_none_iff x y).mpr (h.1 ▸ h.2 ▸ hoff),
      (s.pixel?_eq_none_iff x y).mpr (hs.1 ▸ hs.2 ▸ hoff)]
    rfl

theorem overlaid_overlay (h : r.SameSize top) : r.Overlaid top (r.overlay top) where
  sameSize := ⟨r.width_overlay top, r.height_overlay top⟩
  laid := by
    intro x y t b ht hb
    refine ⟨t.onto b, ?_, Color.laid_onto t b⟩
    rw [pixel?_overlay r h, ht, hb]
    rfl
  of_transparent := by
    intro htop
    refine overlay_eq h (.refl r) fun x y t b ht hb => ?_
    rw [hb, Color.onto_of_alpha_zero (htop x y t ht)]
  of_solid := by
    intro htop
    refine overlay_eq h h.symm fun x y t b ht _ => ?_
    rw [ht, Color.onto_of_alpha_full (htop x y t ht)]

/-- **What an overlay shows.** The `overlay` of a raster of the `SameSize` is `Overlaid`: the alpha
    of every pixel is that of source-over, and so are its other channels, up to rounding, wherever
    the top is transparent or solid, or what is below it is solid; elsewhere they are exactly if the
    `shortfall` of a blend is made good by rounding. A transparent top changes nothing and a solid
    one changes all; over solid pixels there are only solid ones, and no channel leaves the range of
    the two. `Machine.Flat.overlay` finds the same in the bytes, where no number is too large for
    the four bytes or the one byte it is kept in. -/
theorem overlay_laid (h : r.SameSize top) :
    r.Overlaid top (r.overlay top)
      ∧ (Machine.Flat.of r).overlay (.of top) = some (.of (r.overlay top)) :=
  ⟨overlaid_overlay h, Machine.Flat.overlay_of h⟩

/-- A case of `overlay_laid`: half of white over blue that covers nothing, on the left, and over
    solid blue, on the right. The hidden blue is seen through it as well. -/
theorem overlay_of_half_white :
    let r := generate 2 2 fun x _ => ⟨0, 0, 200, UInt8.ofNat (255 * x)⟩
    let top := generate 2 2 fun _ y => ⟨255, 255, 255, UInt8.ofNat (128 * y)⟩
    r.SameSize top ∧ r.Overlaid top (r.overlay top)
      ∧ (r.overlay top).pixel? 0 0 = r.pixel? 0 0
      ∧ (r.overlay top).pixel? 0 1 = some ⟨128, 128, 228, 128⟩
      ∧ (r.overlay top).pixel? 1 1 = some ⟨128, 128, 228, 255⟩
      ∧ (Machine.Flat.of r).overlay (.of top) = some (.of (r.overlay top)) := by
  intro r top
  have hsize : r.SameSize top := ⟨rfl, rfl⟩
  obtain ⟨hover, hmachine⟩ := overlay_laid hsize
  exact ⟨hsize, hover, by decide +kernel, by decide +kernel, by decide +kernel, hmachine⟩

end Raster

end TextArt
