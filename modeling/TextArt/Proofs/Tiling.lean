import TextArt.Proofs.Grid

namespace TextArt

/-!
# Tilings — rasters that show a grid of cells

A raster is made of byte runs that know nothing of cells.  This module says what it takes
for a raster to show a grid of small pictures, one in every cell, and that each drawing
operation at the edges of a cell is the edit of the grid that it is meant to be.

* `Raster.OnCells` — which pixels a screen of some cells has;
* `Raster.Tiled` — every pixel of a raster is the pixel of a tile, and there are no
  others;
* `Raster.Tiled.put`, `Raster.Tiled.fill_cell`, `Raster.Tiled.fill_rest`,
  `Raster.Tiled.fill_all`, `Raster.Tiled.scroll` — drawing is editing.
-/

/-- The picture in a cell, column first, as a `Color` for each place. -/
abbrev Tile := Nat → Nat → Color

namespace Raster

/-- Whether a pixel belongs to a screen of some columns and rows of cells of `w` columns
    and `h` rows.  A screen whose bytes cannot be counted in a machine word has no
    pixels. -/
def OnCells (columns rows w h x y : Nat) : Prop :=
  x < columns * w ∧ y < rows * h ∧ columns * w * (rows * h) * 4 < byteLimit

instance (columns rows w h x y : Nat) : Decidable (OnCells columns rows w h x y) :=
  inferInstanceAs (Decidable (_ ∧ _))

/-- Every pixel of a raster is that of a `Tile` of a grid, and the raster has the pixels of a screen
    with the rows of the grid. -/
def Tiled (r : Raster) (columns w h : Nat) (g : Grid Tile) : Prop :=
  ∀ x y, r.pixel? x y =
    if OnCells columns g.rows w h x y then some (g.cell (x / w) (y / h) (x % w) (y % h)) else none

/-! ### The size of a tiled raster -/

variable {r v : Raster} {columns w h : Nat} {g k : Grid Tile}

/-- A pixel of a `Tiled` raster, where the number of rows is known. -/
theorem Tiled.pixel?_eq (hr : r.Tiled columns w h g) {rows : Nat} (hrows : g.rows = rows)
    (x y : Nat) :
    r.pixel? x y =
      if OnCells columns rows w h x y then some (g.cell (x / w) (y / h) (x % w) (y % h))
      else none := by
  subst hrows
  exact hr x y

/-- A `Tiled` raster has exactly the pixels that are `OnCells`. -/
theorem Tiled.isSome_iff (hr : r.Tiled columns w h g) (x y : Nat) :
    (x < r.width ∧ y < r.height) ↔ OnCells columns g.rows w h x y := by
  rw [← isSome_pixel?_iff, hr x y]
  by_cases hp : OnCells columns g.rows w h x y
  · rw [if_pos hp]
    exact iff_of_true rfl hp
  · rw [if_neg hp]
    exact iff_of_false Bool.false_ne_true hp

/-- If the screen has a pixel that is `OnCells` at all, the sides of a `Tiled` raster are those of
    the screen. -/
theorem Tiled.size_eq (hr : r.Tiled columns w h g) {x y : Nat}
    (hp : OnCells columns g.rows w h x y) :
    r.width = columns * w ∧ r.height = g.rows * h := by
  have hon := (hr.isSome_iff x y).2 hp
  obtain ⟨hx, hy, hfits⟩ := hp
  constructor
  · -- compare the first column right of either side with the other side
    have h1 := hr.isSome_iff r.width y
    have h2 := hr.isSome_iff (columns * w) y
    unfold OnCells at h1 h2
    by_contra hne
    rcases Nat.lt_or_gt_of_ne hne with hlt | hgt
    · exact Nat.lt_irrefl _ (h1.2 ⟨hlt, hy, hfits⟩).1
    · exact Nat.lt_irrefl _ (h2.1 ⟨hgt, hon.2⟩).1
  · have h1 := hr.isSome_iff x r.height
    have h2 := hr.isSome_iff x (g.rows * h)
    unfold OnCells at h1 h2
    by_contra hne
    rcases Nat.lt_or_gt_of_ne hne with hlt | hgt
    · exact Nat.lt_irrefl _ (h1.2 ⟨hx, hlt, hfits⟩).2
    · exact Nat.lt_irrefl _ (h2.1 ⟨hon.1, hgt⟩).2.1

/-- Two rasters that are `Tiled` alike have one size wherever there is a pixel. -/
theorem Tiled.sameSize (hr : r.Tiled columns w h g) (hv : v.Tiled columns w h k)
    (hrows : g.rows = k.rows) {x y : Nat} (hp : OnCells columns g.rows w h x y) :
    r.SameSize v := by
  obtain ⟨hw, hh⟩ := hr.size_eq hp
  obtain ⟨hw', hh'⟩ := hv.size_eq (hrows ▸ hp)
  exact ⟨by rw [hw, hw'], by rw [hh, hh', hrows]⟩

/-- A raster of the same size is `Tiled` by what its pixels are on the screen. -/
theorem Tiled.of_pixel {r' : Raster} (hr : r.Tiled columns w h g) (hrows : k.rows = g.rows)
    (hw : r'.width = r.width) (hh : r'.height = r.height)
    (hpixel : ∀ x y, OnCells columns g.rows w h x y →
      r'.pixel? x y = some (k.cell (x / w) (y / h) (x % w) (y % h))) :
    r'.Tiled columns w h k := by
  intro x y
  rw [hrows]
  by_cases hp : OnCells columns g.rows w h x y
  · rw [if_pos hp, hpixel x y hp]
  · rw [if_neg hp, pixel?_eq_none_iff, hw, hh]
    have hoff : ¬ (x < r.width ∧ y < r.height) := fun hon => hp ((hr.isSome_iff x y).1 hon)
    omega

/-! ### Cells and their pixels -/

/-- The cells of a screen with a pixel that is `OnCells` have pixels. -/
theorem OnCells.pos {rows x y : Nat} (hp : OnCells columns rows w h x y) : 0 < w ∧ 0 < h := by
  obtain ⟨hx, hy, _⟩ := hp
  exact ⟨Nat.pos_of_mul_pos_left (by omega : 0 < columns * w),
    Nat.pos_of_mul_pos_left (by omega : 0 < rows * h)⟩

/-- Where a cell has one pixel that is `OnCells`, all of its pixels are. -/
theorem OnCells.of_cell {rows column row x y : Nat}
    (hcell : OnCells columns rows w h (column * w) (row * h)) (hx : x / w = column)
    (hy : y / h = row) : OnCells columns rows w h x y := by
  obtain ⟨hw, hh⟩ := hcell.pos
  obtain ⟨hcolumn, hrow, hfits⟩ := hcell
  have hcolumn' : x / w < columns := hx ▸ Nat.lt_of_mul_lt_mul_right hcolumn
  have hrow' : y / h < rows := hy ▸ Nat.lt_of_mul_lt_mul_right hrow
  exact ⟨(Nat.div_lt_iff_lt_mul hw).1 hcolumn', (Nat.div_lt_iff_lt_mul hh).1 hrow', hfits⟩

/-- A pixel lies between the edges of its own cell, the one that division by `w` finds, and of no
    other. -/
theorem div_eq_iff_between {x column : Nat} (hw : 0 < w) :
    x / w = column ↔ column * w ≤ x ∧ x < column * w + w := by
  rw [Nat.div_eq_iff hw]
  omega

/-- The place of a pixel in its cell is the remainder by `w`. -/
theorem sub_mul_eq_mod {x column : Nat} (hc : x / w = column) : x - column * w = x % w := by
  have hdiv := Nat.div_add_mod x w
  rw [hc, Nat.mul_comm] at hdiv
  omega

/-! ### Drawing is editing -/

/-- A bitmap that fills a cell changes the `tile` of the cell and nothing else. -/
theorem Tiled.put (hr : r.Tiled columns w h g) (column row : Nat) {bitmap : Array Color}
    {tile : Tile} (hsize : bitmap.size = h * w)
    (hbitmap : ∀ i j, i < w → j < h → bitmap[j * w + i]? = some (tile i j)) :
    (r.put (column * w) (row * h) w h bitmap).Tiled columns w h
      (g.change column row fun _ => tile) := by
  refine hr.of_pixel rfl (width_put ..) (height_put ..) fun x y hp => ?_
  obtain ⟨hw, hh⟩ := hp.pos
  obtain ⟨hx, hy⟩ := (hr.isSome_iff x y).2 hp
  rw [pixel?_put]
  -- in the cell the bitmap decides, and elsewhere nothing has changed
  by_cases hcell : x / w = column ∧ y / h = row
  · have hxc := (div_eq_iff_between hw).1 hcell.1
    have hyc := (div_eq_iff_between hh).1 hcell.2
    have hj := Nat.mod_lt y hh
    -- a row is drawn only if the bitmap holds all of it, which one that fills the cell does
    have hspan : (y - row * h) * w + (min (column * w + w) r.width - column * w)
        ≤ bitmap.size := by
      rw [hsize, sub_mul_eq_mod hcell.2]
      calc y % h * w + (min (column * w + w) r.width - column * w)
          ≤ y % h * w + w := by omega
        _ = (y % h + 1) * w := by rw [Nat.add_mul, Nat.one_mul]
        _ ≤ h * w := Nat.mul_le_mul_right w hj
    rw [if_pos ⟨⟨hxc.1, hxc.2, hyc.1, hyc.2⟩, hx, hy, hspan⟩, sub_mul_eq_mod hcell.1,
      sub_mul_eq_mod hcell.2, hbitmap _ _ (Nat.mod_lt x hw) hj, Grid.cell_change, if_pos hcell]
  · have hout : ¬ Inside (column * w) (row * h) w h x y := by
      intro hin
      exact hcell ⟨(div_eq_iff_between hw).2 ⟨hin.1, hin.2.1⟩,
        (div_eq_iff_between hh).2 ⟨hin.2.2.1, hin.2.2.2⟩⟩
    rw [if_neg fun hin => hout hin.1, hr x y, if_pos hp, Grid.cell_change, if_neg hcell]

/-- To `fill` pixels that make up whole cells changes the tiles of these cells. -/
theorem Tiled.fill (hr : r.Tiled columns w h g) {x₀ y₀ dx dy : Nat} {color : Color}
    (cells : Nat → Nat → Prop) [∀ i j, Decidable (cells i j)] {k : Grid Tile}
    (hcells : ∀ x y, OnCells columns g.rows w h x y →
      (Inside x₀ y₀ dx dy x y ↔ cells (x / w) (y / h)))
    (hrows : k.rows = g.rows)
    (hk : ∀ i j, k.cell i j = if cells i j then fun _ _ => color else g.cell i j) :
    (r.fill x₀ y₀ dx dy color).Tiled columns w h k := by
  refine hr.of_pixel hrows (width_fill ..) (height_fill ..) fun x y hp => ?_
  obtain ⟨hx, hy⟩ := (hr.isSome_iff x y).2 hp
  have hin := hcells x y hp
  rw [pixel?_fill, hk]
  by_cases hc : cells (x / w) (y / h)
  · rw [if_pos hc, if_pos ⟨hin.2 hc, hx, hy⟩]
  · rw [if_neg hc, if_neg fun hi => hc (hin.1 hi.1), hr x y, if_pos hp]

theorem Tiled.fill_cell (hr : r.Tiled columns w h g) (column row : Nat) (color : Color) :
    (r.fill (column * w) (row * h) w h color).Tiled columns w h
      (g.change column row fun _ _ _ => color) := by
  refine hr.fill (fun i j => i = column ∧ j = row) (fun x y hp => ?_) rfl fun _ _ => rfl
  obtain ⟨hw, hh⟩ := hp.pos
  rw [div_eq_iff_between hw, div_eq_iff_between hh]
  unfold Inside
  omega

/-- To `fill` the rest of a cell row reaches as far as another raster on the same cells. -/
theorem Tiled.fill_rest (hr : r.Tiled columns w h g) (hv : v.Tiled columns w h k)
    (hrows : k.rows = g.rows) (column row : Nat) (color : Color) :
    (r.fill (column * w) (row * h) (v.width - column * w) h color).Tiled columns w h
      (g.eraseRest (fun _ _ => color) column row) := by
  refine hr.fill (fun i j => column ≤ i ∧ j = row) (fun x y hp => ?_) rfl fun _ _ => rfl
  obtain ⟨hw, hh⟩ := hp.pos
  have hwidth := (hv.size_eq (hrows ▸ hp)).1
  have hx := hp.1
  rw [div_eq_iff_between hh, Nat.le_div_iff_mul_le hw]
  unfold Inside
  omega

theorem Tiled.fill_all (hr : r.Tiled columns w h g) (hv : v.Tiled columns w h k)
    (hrows : k.rows = g.rows) (color : Color) :
    (r.fill 0 0 v.width v.height color).Tiled columns w h (g.eraseAll fun _ _ => color) := by
  refine hr.fill (fun _ _ => True) (fun x y hp => ?_) rfl fun _ _ => rfl
  obtain ⟨hwidth, hheight⟩ := hv.size_eq (hrows ▸ hp)
  obtain ⟨hx, hy, _⟩ := hp
  rw [hrows] at hheight
  unfold Inside
  constructor
  · intro _
    trivial
  · intro _
    omega

/-- Moving a `Tiled` raster up by one cell row and filling the last one drops the top row of the
    grid and adds a row. -/
theorem Tiled.scroll (hr : r.Tiled columns w h g) (hv : v.Tiled columns w h k)
    (hrows : k.rows = g.rows) (color : Color) :
    ((r.shiftUp h).fill 0 ((g.rows - 1) * h) v.width h color).Tiled columns w h
      (g.scroll fun _ _ => color) := by
  refine hr.of_pixel rfl ((width_fill ..).trans (width_shiftUp ..))
    ((height_fill ..).trans (height_shiftUp ..)) fun x y hp => ?_
  obtain ⟨hw, hh⟩ := hp.pos
  obtain ⟨hwidth, hheight⟩ := hr.size_eq hp
  have hwidth' := (hv.size_eq (hrows ▸ hp)).1
  obtain ⟨hx, hy, hfits⟩ := hp
  have hband : (g.rows - 1) * h = g.rows * h - h := by rw [Nat.sub_mul, Nat.one_mul]
  rw [pixel?_fill, width_shiftUp, height_shiftUp, pixel?_shiftUp, hwidth, hheight,
    Grid.cell_scroll]
  by_cases hlast : y / h + 1 < g.rows
  · -- the pixel comes from the cell row below, which is on the screen
    have hbelow : y + h < g.rows * h := by
      have hdiv : y / h + 1 = (y + h) / h := (Nat.add_div_right y hh).symm
      exact (Nat.div_lt_iff_lt_mul hh).1 (hdiv ▸ hlast)
    have hout : ¬ Inside 0 ((g.rows - 1) * h) v.width h x y := by
      unfold Inside
      omega
    rw [if_pos hlast, if_neg fun hin => hout hin.1, if_pos ⟨by omega, hbelow⟩, hr x (y + h),
      if_pos ⟨hx, hbelow, hfits⟩, Nat.add_div_right y hh, Nat.add_mod_right]
  · -- the pixel is in the last cell row, which has been filled
    have hin : Inside 0 ((g.rows - 1) * h) v.width h x y := by
      have hle : (g.rows - 1) * h ≤ y := by
        rw [← Nat.le_div_iff_mul_le hh]
        exact Nat.sub_le_of_le_add (Nat.not_lt.1 hlast)
      unfold Inside
      omega
    rw [if_neg hlast, if_pos ⟨hin, hx, hy⟩]

/-! ### Where a tiling begins -/

/-- Where cutting the sides of a screen to a machine word leaves fewer bytes than `byteLimit`, there
    was nothing to cut. -/
theorem le_of_min_mul_min_lt {a b : Nat} (hb : 0 < b)
    (h : min a (byteLimit - 1) * min b (byteLimit - 1) * 4 < byteLimit) : a ≤ byteLimit - 1 := by
  have hlimit : 4 < byteLimit := by decide
  by_contra ha
  -- if this side had been cut, its pixels alone would take too many bytes
  rw [Nat.min_eq_right (by omega)] at h
  have hone : 1 ≤ min b (byteLimit - 1) := by omega
  have := Nat.mul_le_mul_left (byteLimit - 1) hone
  omega

/-- An untouched raster has the pixels that are `OnCells`. -/
theorem isSome_pixel?_blank (columns rows w h x y : Nat) :
    ((blank (Screen.extent columns w) (Screen.extent rows h)).pixel? x y).isSome
      ↔ OnCells columns rows w h x y := by
  rw [isSome_pixel?_iff]
  unfold blank OnCells Screen.extent
  generalize columns * w = a
  generalize rows * h = b
  split
  · next hfits =>
    -- the cut sides leave few enough bytes
    show x < min a (byteLimit - 1) ∧ y < min b (byteLimit - 1) ↔ _
    constructor
    · rintro ⟨hx, hy⟩
      have ha := le_of_min_mul_min_lt (by omega : 0 < b) hfits
      have hb := le_of_min_mul_min_lt (by omega : 0 < a)
        (by rw [Nat.mul_comm (min b _)]; exact hfits)
      rw [Nat.min_eq_left ha, Nat.min_eq_left hb] at hfits
      exact ⟨by omega, by omega, hfits⟩
    · rintro ⟨hx, hy, hfits'⟩
      have ha := Nat.le_mul_of_pos_right a (by omega : 0 < b)
      have hb := Nat.le_mul_of_pos_left b (by omega : 0 < a)
      omega
  · next hfits =>
    -- they do not, and the raster has no pixels; nor has the screen
    show x < 0 ∧ y < 0 ↔ _
    constructor
    · rintro ⟨hx, _⟩
      omega
    · rintro ⟨hx, hy, hfits'⟩
      have ha := Nat.le_mul_of_pos_right a (by omega : 0 < b)
      have hb := Nat.le_mul_of_pos_left b (by omega : 0 < a)
      rw [Nat.min_eq_left (by omega), Nat.min_eq_left (by omega)] at hfits
      omega

/-- An untouched raster filled with a `color` shows that colour in every cell. -/
theorem tiled_fill_blank (columns rows w h : Nat) (color : Color) :
    let untouched := blank (Screen.extent columns w) (Screen.extent rows h)
    (untouched.fill 0 0 untouched.width untouched.height color).Tiled columns w h
      (.blank rows fun _ _ => color) := by
  intro untouched x y
  have hsome := isSome_pixel?_blank columns rows w h x y
  rw [pixel?_fill]
  show _ = if OnCells columns rows w h x y then some color else none
  by_cases hp : OnCells columns rows w h x y
  · obtain ⟨hx, hy⟩ := (isSome_pixel?_iff untouched x y).1 (hsome.2 hp)
    rw [if_pos hp, if_pos ⟨by unfold Inside; omega, hx, hy⟩]
  · have hoff : ¬ (x < untouched.width ∧ y < untouched.height) := by
      rw [← isSome_pixel?_iff]
      exact fun hon => hp (hsome.1 hon)
    rw [if_neg hp, if_neg fun hin => hoff hin.2, pixel?_eq_none_iff]
    omega

end Raster

end TextArt
