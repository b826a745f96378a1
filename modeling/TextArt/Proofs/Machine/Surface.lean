import TextArt.Proofs.Machine.Flat
import TextArt.Proofs.NineColumns

namespace TextArt

/-!
# Surfaces — the screen of a machine

A screen with its rasters as runs of bytes.  Cells are found by counting, and what is drawn is
clipped to the rasters; a cell of the screen never needs to be.

* `Screen.Representable` — the rasters of a screen are as large as its cells, and a machine can
  count their bytes; `Screen.Representable.of_sameForm` says that this does not depend on what is
  drawn;
* `Screen.Roomy` — moreover, there are not more cells than on the largest screen;
* `Screen.Roomy.cell_inside` — the cells of such a screen lie on its rasters;
* `Machine.Surface` — a screen as a machine keeps it, without the blink; `Machine.Surface.of` is
  that of a screen;
* `Machine.Surface.new_of`, `Machine.Surface.draw_of` and their like — nothing that is done to the
  surface of a roomy screen fails, and it is done to the screen; `Machine.Surface.scroll_of` says
  so of any screen that is representable.
-/

namespace Screen

/-- The rasters of a `Screen` are as large as its cells, and their bytes can be counted. -/
structure Representable (s : Screen) : Prop where
  width_eq : s.visible.width = s.columns * s.cellWidth
  height_eq : s.visible.height = s.rows * s.cellHeight
  countable : s.visible.Countable
  even : s.Even

/-- A side of a screen that can be counted is not cut by `extent`. -/
theorem extent_eq {count side : Nat} (h : count * side < UInt64.size) :
    extent count side = count * side :=
  Nat.min_eq_left (Nat.le_sub_one_of_lt h)

namespace Representable

variable {s u : Screen}

theorem of_sameForm (h : s.Representable) (hu : u.SameForm s) : u.Representable where
  width_eq := by rw [hu.visible.1, hu.columns_eq, hu.cellWidth_eq, h.width_eq]
  height_eq := by rw [hu.visible.2, hu.rows_eq, hu.cellHeight_eq, h.height_eq]
  countable := h.countable.of_sameSize hu.visible
  even := hu.even h.even

/-- A `new` screen is `Representable` if its sides and its bytes can be counted. -/
theorem new {columns rows cellWidth cellHeight : Nat}
    (hwidth : columns * cellWidth < UInt64.size) (hheight : rows * cellHeight < UInt64.size)
    (hbytes : columns * cellWidth * (rows * cellHeight) * 4 < UInt64.size) (background : Color) :
    (Screen.new columns rows cellWidth cellHeight background).Representable := by
  -- sides that can be counted are not cut, so the rasters are as large as asked for
  have hblank : Raster.blank (extent columns cellWidth) (extent rows cellHeight)
      = .solid (columns * cellWidth) (rows * cellHeight) .transparent := by
    rw [extent_eq hwidth, extent_eq hheight]
    exact if_pos hbytes
  have hsides : (Screen.new columns rows cellWidth cellHeight background).visible.SameSize
      (.solid (columns * cellWidth) (rows * cellHeight) .transparent) :=
    ⟨(Raster.width_fill ..).trans (congrArg Raster.width hblank),
      (Raster.height_fill ..).trans (congrArg Raster.height hblank)⟩
  exact ⟨hsides.1, hsides.2, .of_sameSize ⟨hwidth, hheight, hbytes⟩ hsides, even_new ..⟩

/-- The place of the last row of a `Representable` screen can be counted. -/
theorem lastRow_lt (h : s.Representable) : (s.rows - 1) * s.cellHeight < UInt64.size := by
  calc (s.rows - 1) * s.cellHeight ≤ s.rows * s.cellHeight :=
        Nat.mul_le_mul_right _ (Nat.sub_le ..)
    _ = s.visible.height := h.height_eq.symm
    _ < UInt64.size := h.countable.height

end Representable

/-- The rasters of a screen are as large as its cells, and neither the cells nor the screen are
    larger than the largest ones, of `maxColumns` and `maxRows`. -/
structure Roomy (s : Screen) : Prop where
  columns : s.columns ≤ maxColumns
  rows : s.rows ≤ maxRows
  cellWidth : s.cellWidth ≤ 9
  cellHeight : s.cellHeight ≤ 16
  visibleWidth : s.visible.width = s.columns * s.cellWidth
  visibleHeight : s.visible.height = s.rows * s.cellHeight
  even : s.Even

namespace Roomy

variable {s u : Screen}

theorem of_sameForm (h : s.Roomy) (hu : u.SameForm s) : u.Roomy where
  columns := hu.columns_eq ▸ h.columns
  rows := hu.rows_eq ▸ h.rows
  cellWidth := hu.cellWidth_eq ▸ h.cellWidth
  cellHeight := hu.cellHeight_eq ▸ h.cellHeight
  visibleWidth := by rw [hu.visible.1, hu.columns_eq, hu.cellWidth_eq, h.visibleWidth]
  visibleHeight := by rw [hu.visible.2, hu.rows_eq, hu.cellHeight_eq, h.visibleHeight]
  even := hu.even h.even

/-- A `Roomy` screen is not larger than the largest screen. -/
theorem sides_le (h : s.Roomy) :
    s.visible.width ≤ maxColumns * 9 ∧ s.visible.height ≤ maxRows * 16 := by
  rw [h.visibleWidth, h.visibleHeight]
  exact ⟨Nat.mul_le_mul h.columns h.cellWidth, Nat.mul_le_mul h.rows h.cellHeight⟩

/-- There is room for the bytes of a `Roomy` screen. -/
theorem bytes_lt (h : s.Roomy) : s.visible.width * s.visible.height * 4 < 2 ^ 63 := by
  calc s.visible.width * s.visible.height * 4
      ≤ maxColumns * 9 * (maxRows * 16) * 4 :=
        Nat.mul_le_mul_right 4 (Nat.mul_le_mul h.sides_le.1 h.sides_le.2)
    _ < 2 ^ 63 := by decide

/-- The pixels of a `Roomy` screen are `Countable`. -/
theorem countable (h : s.Roomy) : s.visible.Countable where
  width := Nat.lt_of_le_of_lt h.sides_le.1 (by decide)
  height := Nat.lt_of_le_of_lt h.sides_le.2 (by decide)
  bytes := Nat.lt_trans h.bytes_lt (by decide)

theorem representable (h : s.Roomy) : s.Representable :=
  ⟨h.visibleWidth, h.visibleHeight, h.countable, h.even⟩

theorem countable_onMask (h : s.Roomy) : s.onMask.Countable :=
  h.countable.of_sameSize h.even.onMask

theorem countable_offMask (h : s.Roomy) : s.offMask.Countable :=
  h.countable.of_sameSize h.even.offMask

/-- A cell of a `Roomy` screen lies on the rasters as a whole. -/
theorem cell_inside (h : s.Roomy) {column row : Nat} (hcolumn : column < s.columns)
    (hrow : row < s.rows) :
    column * s.cellWidth + s.cellWidth ≤ s.visible.width
      ∧ row * s.cellHeight + s.cellHeight ≤ s.visible.height := by
  rw [h.visibleWidth, h.visibleHeight, ← Nat.succ_mul, ← Nat.succ_mul]
  exact ⟨Nat.mul_le_mul_right _ hcolumn, Nat.mul_le_mul_right _ hrow⟩

/-- A `new` screen is `Roomy`, if it is not too large. -/
theorem new {columns rows cellWidth cellHeight : Nat} (hcolumns : columns ≤ maxColumns)
    (hrows : rows ≤ maxRows) (hcellWidth : cellWidth ≤ 9) (hcellHeight : cellHeight ≤ 16)
    (background : Color) : (Screen.new columns rows cellWidth cellHeight background).Roomy := by
  have hwidth : columns * cellWidth ≤ maxColumns * 9 := Nat.mul_le_mul hcolumns hcellWidth
  have hheight : rows * cellHeight ≤ maxRows * 16 := Nat.mul_le_mul hrows hcellHeight
  obtain ⟨hwidthEq, hheightEq, -, heven⟩ :=
    Representable.new (Nat.lt_of_le_of_lt hwidth (by decide))
      (Nat.lt_of_le_of_lt hheight (by decide))
      (Raster.bytes_lt_of_small hcolumns hrows hcellWidth hcellHeight) background
  exact ⟨hcolumns, hrows, hcellWidth, hcellHeight, hwidthEq, hheightEq, heven⟩

end Roomy

end Screen

namespace Machine

/-! ### Surfaces -/

/-- A `Screen` with its rasters as runs of bytes, without the blink. -/
structure Surface where
  columns : Nat
  rows : Nat
  cellWidth : Nat
  cellHeight : Nat
  background : Color
  visible : Flat
  onMask : Flat
  offMask : Flat

namespace Surface

/-- The surface of a `Screen`. -/
def of (s : Screen) : Surface where
  columns := s.columns
  rows := s.rows
  cellWidth := s.cellWidth
  cellHeight := s.cellHeight
  background := s.background
  visible := .of s.visible
  onMask := .of s.onMask
  offMask := .of s.offMask

/-- Fill a pixel rectangle with the `background` and let nothing blink in it. -/
def clearArea (s : Surface) (x y w h : Nat) : Option Surface := do
  let visible ← s.visible.fill x y w h s.background
  let onMask ← s.onMask.clear x y w h
  let offMask ← s.offMask.clear x y w h
  pure { s with visible, onMask, offMask }

/-- Empty all cells, by `clearArea` over all of the surface. -/
def clearAll (s : Surface) : Option Surface :=
  s.clearArea 0 0 s.visible.width s.visible.height

/-- An empty surface, its sides cut by `saturatedWord`. -/
def new (columns rows cellWidth cellHeight : Nat) (background : Color) : Option Surface := do
  let width := saturatedWord (columns * cellWidth)
  let height := saturatedWord (rows * cellHeight)
  let visible ← Flat.new width height
  let onMask ← Flat.new width height
  let offMask ← Flat.new width height
  let _frame ← Flat.new width height
  clearAll { columns, rows, cellWidth, cellHeight, background, visible, onMask, offMask }

/-- The upper left pixel of a cell, each coordinate a `word`. -/
def origin (s : Surface) (column row : Nat) : Option (Nat × Nat) := do
  let x ← word (column * s.cellWidth)
  let y ← word (row * s.cellHeight)
  pure (x, y)

/-- Empty the cells of a row from a column to the right edge, by `clearArea`. -/
def clearToEndOfRow (s : Surface) (column row : Nat) : Option Surface := do
  let (x, y) ← s.origin column row
  s.clearArea x y (s.visible.width - x) s.cellHeight

/-- Let nothing blink in a cell, by `clear` on both masks. -/
def stopBlink (s : Surface) (column row : Nat) : Option Surface := do
  let (x, y) ← s.origin column row
  let onMask ← s.onMask.clear x y s.cellWidth s.cellHeight
  let offMask ← s.offMask.clear x y s.cellWidth s.cellHeight
  pure { s with onMask, offMask }

/-- Draw the pixels of a character in a cell, by `put` at its `origin`. -/
def draw (s : Surface) (column row : Nat) (bitmap : Bytes) : Option Surface := do
  let (x, y) ← s.origin column row
  let visible ← s.visible.put x y s.cellWidth s.cellHeight bitmap
  pure { s with visible }

/-- Let a cell blink between two looks, `on` and `off`. -/
def drawBlink (s : Surface) (column row : Nat) (on off : Bytes) : Option Surface := do
  let (x, y) ← s.origin column row
  let onMask ← s.onMask.put x y s.cellWidth s.cellHeight on
  let offMask ← s.offMask.put x y s.cellWidth s.cellHeight off
  pure { s with onMask, offMask }

/-- Move all cells one row up by `shiftUp` and empty the last row. -/
def scroll (s : Surface) : Option Surface := do
  let visible ← s.visible.shiftUp s.cellHeight
  let onMask ← s.onMask.shiftUp s.cellHeight
  let offMask ← s.offMask.shiftUp s.cellHeight
  let y ← word ((s.rows - 1) * s.cellHeight)
  clearArea { s with visible, onMask, offMask } 0 y visible.width s.cellHeight

/-! ### The surface of a screen -/

variable {s : Screen}

theorem clearArea_of (hr : s.visible.Countable) (heven : s.Even) (x y w height : Nat) :
    (of s).clearArea x y w height = some (of (s.clearArea x y w height)) := by
  have hvisible : (of s).visible.fill x y w height (of s).background = _ :=
    Flat.fill_of hr x y w height s.background
  have honMask : (of s).onMask.clear x y w height = _ :=
    Flat.clear_of (hr.of_sameSize heven.onMask) x y w height
  have hoffMask : (of s).offMask.clear x y w height = _ :=
    Flat.clear_of (hr.of_sameSize heven.offMask) x y w height
  rw [clearArea, hvisible, honMask, hoffMask]
  rfl

theorem clearAll_of (h : s.Roomy) : (of s).clearAll = some (of s.clearAll) :=
  clearArea_of h.countable h.even 0 0 s.visible.width s.visible.height

/-- Rasters that are made for a screen by `Flat.new` are emptied as the screen is reset. -/
theorem new_of_untouched (h : s.Roomy) (hmasks : s.onMask = s.visible ∧ s.offMask = s.visible)
    (hvisible : Flat.new (saturatedWord (s.columns * s.cellWidth))
      (saturatedWord (s.rows * s.cellHeight)) = some (.of s.visible)) :
    new s.columns s.rows s.cellWidth s.cellHeight s.background = some (of s.reset) := by
  -- the three rasters are made as one, which the masks of the screen have to agree with
  have hsurface : (⟨s.columns, s.rows, s.cellWidth, s.cellHeight, s.background, .of s.visible,
      .of s.visible, .of s.visible⟩ : Surface) = of s := by
    rw [of, hmasks.1, hmasks.2]
  rw [new, hvisible]
  simp only [Option.bind_eq_bind, Option.bind_some]
  rw [hsurface]
  exact clearAll_of h

/-- A `new` surface is that of a new screen. -/
theorem new_of {columns rows cellWidth cellHeight : Nat} (hcolumns : columns ≤ maxColumns)
    (hrows : rows ≤ maxRows) (hcellWidth : cellWidth ≤ 9) (hcellHeight : cellHeight ≤ 16)
    (background : Color) :
    new columns rows cellWidth cellHeight background
      = some (of (.new columns rows cellWidth cellHeight background)) := by
  have hwidth : columns * cellWidth ≤ maxColumns * 9 := Nat.mul_le_mul hcolumns hcellWidth
  have hheight : rows * cellHeight ≤ maxRows * 16 := Nat.mul_le_mul hrows hcellHeight
  have hextents : Screen.extent columns cellWidth = columns * cellWidth
      ∧ Screen.extent rows cellHeight = rows * cellHeight :=
    ⟨Screen.extent_eq (Nat.lt_of_le_of_lt hwidth (by decide)),
      Screen.extent_eq (Nat.lt_of_le_of_lt hheight (by decide))⟩
  have hsides : saturatedWord (columns * cellWidth) = columns * cellWidth
      ∧ saturatedWord (rows * cellHeight) = rows * cellHeight := hextents
  have hroomy := Screen.Roomy.new hcolumns hrows hcellWidth hcellHeight background
  have hbytes : columns * cellWidth * (rows * cellHeight) * 4 < 2 ^ 63 := by
    have hless := hroomy.bytes_lt
    rw [hroomy.visibleWidth, hroomy.visibleHeight] at hless
    exact hless
  -- a new screen is one that was reset, and before that all of its rasters were blank
  rw [Screen.new] at hroomy ⊢
  generalize hblank : Raster.blank (Screen.extent columns cellWidth) (Screen.extent rows cellHeight)
    = blank at hroomy ⊢
  rw [hextents.1, hextents.2] at hblank
  refine new_of_untouched (hroomy.of_sameForm (Screen.SameForm.symm (Screen.sameForm_reset _)))
    ⟨rfl, rfl⟩ ?_
  rw [hsides.1, hsides.2, Flat.new_of hbytes, hblank]

/-- The places of the cells of a `Roomy` screen can be counted, so `origin` does not fail. -/
theorem origin_of (h : s.Roomy) {column row : Nat} (hcolumn : column < s.columns)
    (hrow : row < s.rows) :
    (of s).origin column row = some (column * s.cellWidth, row * s.cellHeight) := by
  obtain ⟨hx, hy⟩ := h.cell_inside hcolumn hrow
  obtain ⟨hwidth, hheight, -⟩ := h.countable
  have hsides : (of s).cellWidth = s.cellWidth ∧ (of s).cellHeight = s.cellHeight := ⟨rfl, rfl⟩
  rw [origin, hsides.1, hsides.2, word_eq (by omega)]
  simp only [Option.bind_eq_bind, Option.bind_some]
  rw [word_eq (by omega)]
  rfl

/-- The pixels of a cell of a `Roomy` screen can be counted. -/
theorem cell_lt (h : s.Roomy) : s.cellWidth * s.cellHeight * 4 < UInt64.size := by
  calc s.cellWidth * s.cellHeight * 4 ≤ 9 * 16 * 4 :=
        Nat.mul_le_mul_right 4 (Nat.mul_le_mul h.cellWidth h.cellHeight)
    _ < UInt64.size := by decide

variable {column row : Nat}

theorem clearToEndOfRow_of (h : s.Roomy) (hcolumn : column < s.columns) (hrow : row < s.rows) :
    (of s).clearToEndOfRow column row = some (of (s.clearToEndOfRow column row)) := by
  rw [clearToEndOfRow, origin_of h hcolumn hrow]
  exact clearArea_of h.countable h.even ..

theorem stopBlink_of (h : s.Roomy) (hcolumn : column < s.columns) (hrow : row < s.rows) :
    (of s).stopBlink column row = some (of (s.stopBlink column row)) := by
  have honMask : (of s).onMask.clear (column * s.cellWidth) (row * s.cellHeight) (of s).cellWidth
      (of s).cellHeight = _ := Flat.clear_of h.countable_onMask ..
  have hoffMask : (of s).offMask.clear (column * s.cellWidth) (row * s.cellHeight) (of s).cellWidth
      (of s).cellHeight = _ := Flat.clear_of h.countable_offMask ..
  rw [stopBlink, origin_of h hcolumn hrow]
  simp only [Option.bind_eq_bind, Option.bind_some]
  rw [honMask, Option.bind_some, hoffMask]
  rfl

theorem draw_of (h : s.Roomy) (hcolumn : column < s.columns) (hrow : row < s.rows)
    (bitmap : Array Color) :
    (of s).draw column row (pack bitmap.toList) = some (of (s.draw column row bitmap)) := by
  have hvisible : (of s).visible.put (column * s.cellWidth) (row * s.cellHeight) (of s).cellWidth
      (of s).cellHeight (pack bitmap.toList) = _ := Flat.put_of h.countable (cell_lt h) bitmap
  rw [draw, origin_of h hcolumn hrow]
  simp only [Option.bind_eq_bind, Option.bind_some]
  rw [hvisible]
  rfl

theorem drawBlink_of (h : s.Roomy) (hcolumn : column < s.columns) (hrow : row < s.rows)
    (on off : Array Color) :
    (of s).drawBlink column row (pack on.toList) (pack off.toList)
      = some (of (s.drawBlink column row on off)) := by
  have honMask : (of s).onMask.put (column * s.cellWidth) (row * s.cellHeight) (of s).cellWidth
      (of s).cellHeight (pack on.toList) = _ := Flat.put_of h.countable_onMask (cell_lt h) on
  have hoffMask : (of s).offMask.put (column * s.cellWidth) (row * s.cellHeight) (of s).cellWidth
      (of s).cellHeight (pack off.toList) = _ := Flat.put_of h.countable_offMask (cell_lt h) off
  rw [drawBlink, origin_of h hcolumn hrow]
  simp only [Option.bind_eq_bind, Option.bind_some]
  rw [honMask, Option.bind_some, hoffMask]
  rfl

theorem scroll_of (h : s.Representable) : (of s).scroll = some (of s.scroll) := by
  -- the last row is emptied on a screen whose rasters have moved already
  let shifted : Screen :=
    { s with
      visible := s.visible.shiftUp s.cellHeight
      onMask := s.onMask.shiftUp s.cellHeight
      offMask := s.offMask.shiftUp s.cellHeight }
  have hsame : ∀ r : Raster, (r.shiftUp s.cellHeight).SameSize r := fun r =>
    ⟨Raster.width_shiftUp .., Raster.height_shiftUp ..⟩
  have hshifted : shifted.Even :=
    ⟨(hsame _).trans (h.even.onMask.trans (hsame _).symm),
      (hsame _).trans (h.even.offMask.trans (hsame _).symm)⟩
  have hvisible : (of s).visible.shiftUp (of s).cellHeight = _ :=
    Flat.shiftUp_of h.countable s.cellHeight
  have honMask : (of s).onMask.shiftUp (of s).cellHeight = _ :=
    Flat.shiftUp_of (h.countable.of_sameSize h.even.onMask) s.cellHeight
  have hoffMask : (of s).offMask.shiftUp (of s).cellHeight = _ :=
    Flat.shiftUp_of (h.countable.of_sameSize h.even.offMask) s.cellHeight
  have hplace : word (((of s).rows - 1) * (of s).cellHeight) = _ := word_eq h.lastRow_lt
  rw [scroll, hvisible, honMask, hoffMask, hplace]
  exact clearArea_of (s := shifted) (h.countable.of_sameSize (hsame _)) hshifted ..

end Surface

end Machine

end TextArt
