import TextArt.Raster.Drawing

namespace TextArt

/-!
# Screens — a picture of cells in which some cells blink

A screen is a grid of cells on three rasters of one size.  Every character lands on
the visible raster; a blinking cell is drawn a second time on the two masks, in the
look it has while the blink is on and while it is off.  The masks are transparent
wherever nothing blinks, so laying one of them over the visible raster touches the
blinking cells alone.

* `Screen.draw`, `Screen.drawBlink` — a character and the two looks of its cell;
* `Screen.clearArea` and its relatives — background on the visible raster, nothing on
  the masks;
* `Screen.scroll` — all rasters one cell row up, the last row emptied;
* `Screen.merge` — the next phase of the blink is shown;
* `Screen.composed` — the visible raster with the shown phase over it;
  `Screen.frame` is the same picture, kept until something changes
  (`Screen.frame_fst_of_fresh`).

Columns and rows are counted from zero.
-/

/-- A phase of the blink: the cells in `Screen.onMask` are seen, or those in `Screen.offMask`. -/
inductive Phase where
  | on
  | off
  deriving DecidableEq, Inhabited, Repr

/-- The phase that follows, so that `Screen.merge` shows `on` and `off` in turn. -/
def Phase.toggled : Phase → Phase
  | on => off
  | off => on

@[simp] theorem Phase.toggled_toggled (p : Phase) : p.toggled.toggled = p := by
  cases p <;> rfl

/-- A grid of cells on three rasters: `visible`, `onMask` and `offMask`. -/
structure Screen where
  columns : Nat
  rows : Nat
  /-- The pixel columns of a cell, of which there are `columns` in a row. -/
  cellWidth : Nat
  /-- The pixel rows of a cell, of which there are `rows` in a column. -/
  cellHeight : Nat
  /-- The colour of a cell that nothing was drawn in, as `clearArea` leaves it. -/
  background : Color
  /-- The picture without blinking, which `composed` lays a mask over. -/
  visible : Raster
  /-- The blinking cells while the blink is on; what does not blink is `Color.transparent`. -/
  onMask : Raster
  /-- The blinking cells while the blink is off; what does not blink is `Color.transparent`. -/
  offMask : Raster
  /-- The phase that the next `merge` shows. -/
  next : Phase
  /-- The phase that lies over the picture, which there is none of before the first `merge`. -/
  shown : Option Phase
  /-- The `composed` picture, if nothing has changed since `frame` made it. -/
  composedLast : Option Raster
  deriving DecidableEq

namespace Screen

/-- The mask of a phase: `onMask` or `offMask`. -/
def mask (s : Screen) : Phase → Raster
  | .on => s.onMask
  | .off => s.offMask

/-- The pixels that `count` cells of `size` pixels take up, as far as they can be
    counted in a machine word. -/
def extent (count size : Nat) : Nat :=
  min (count * size) (Raster.byteLimit - 1)

/-! ### Clearing -/

/-- Start the blink anew: no phase is `shown` until the next `merge`, which shows the on phase. -/
def restartBlink (s : Screen) : Screen :=
  -- the kept picture goes as well, since it may have a phase over it
  { s with next := .on, shown := none, composedLast := none }

/-- Fill a pixel rectangle with the `background` and let nothing blink in it, by `Raster.fill` and
    `Raster.clear`. -/
def clearArea (s : Screen) (x y w h : Nat) : Screen :=
  { s with
    visible := s.visible.fill x y w h s.background
    onMask := s.onMask.clear x y w h
    offMask := s.offMask.clear x y w h
    composedLast := none }

/-- Empty all cells, with one `clearArea`. -/
def clearAll (s : Screen) : Screen :=
  s.clearArea 0 0 s.visible.width s.visible.height

/-- Empty the cells of a row from a column to the right edge, with one `clearArea`. -/
def clearToEndOfRow (s : Screen) (column row : Nat) : Screen :=
  let x := column * s.cellWidth
  s.clearArea x (row * s.cellHeight) (s.visible.width - x) s.cellHeight

/-- Let nothing blink in a cell, by `Raster.clear` of both masks. -/
def stopBlink (s : Screen) (column row : Nat) : Screen :=
  let x := column * s.cellWidth
  let y := row * s.cellHeight
  { s with
    onMask := s.onMask.clear x y s.cellWidth s.cellHeight
    offMask := s.offMask.clear x y s.cellWidth s.cellHeight
    composedLast := none }

/-- Empty all cells and start the blink anew: `clearAll` and `restartBlink`. -/
def reset (s : Screen) : Screen :=
  s.clearAll.restartBlink

/-- An empty screen, whose rasters are `Raster.blank` and filled with the `background`. -/
def new (columns rows cellWidth cellHeight : Nat) (background : Color) : Screen :=
  let blank := Raster.blank (extent columns cellWidth) (extent rows cellHeight)
  -- the three rasters are made alike, and `reset` fills the picture and clears the masks
  reset
    { columns, rows, cellWidth, cellHeight, background
      visible := blank
      onMask := blank
      offMask := blank
      next := .on
      shown := none
      composedLast := none }

/-! ### Drawing -/

/-- Draw the pixels of a character in a cell of `visible`, by `Raster.put`. -/
def draw (s : Screen) (column row : Nat) (bitmap : Array Color) : Screen :=
  let x := column * s.cellWidth
  let y := row * s.cellHeight
  { s with
    visible := s.visible.put x y s.cellWidth s.cellHeight bitmap
    composedLast := none }

/-- Let a cell blink between two looks, one of them put in `onMask` and the other in `offMask`. -/
def drawBlink (s : Screen) (column row : Nat) (on off : Array Color) : Screen :=
  let x := column * s.cellWidth
  let y := row * s.cellHeight
  { s with
    onMask := s.onMask.put x y s.cellWidth s.cellHeight on
    offMask := s.offMask.put x y s.cellWidth s.cellHeight off
    composedLast := none }

/-- Move all cells one row up, by `Raster.shiftUp`, and empty the last row. -/
def scroll (s : Screen) : Screen :=
  let shifted : Screen :=
    { s with
      visible := s.visible.shiftUp s.cellHeight
      onMask := s.onMask.shiftUp s.cellHeight
      offMask := s.offMask.shiftUp s.cellHeight }
  -- the last row still shows what has moved up from it
  shifted.clearArea 0 ((shifted.rows - 1) * shifted.cellHeight) shifted.visible.width
    shifted.cellHeight

/-! ### The blink -/

/-- Show the next phase of the blink, after which the other one is `next`. -/
def merge (s : Screen) : Screen :=
  { s with next := s.next.toggled, shown := some s.next, composedLast := none }

@[simp] theorem shown_merge (s : Screen) : s.merge.shown = some s.next := rfl

@[simp] theorem next_merge (s : Screen) : s.merge.next = s.next.toggled := rfl

/-- The picture with the `mask` of the phase that is `shown` over it, by `Raster.overlay`. -/
def composed (s : Screen) : Raster :=
  match s.shown with
  | none => s.visible
  | some p => s.visible.overlay (s.mask p)

/-- The `composed` picture, kept in `composedLast` for the next time. -/
def frame (s : Screen) : Raster × Screen :=
  match s.composedLast with
  | some picture => (picture, s)
  | none =>
    let picture := s.composed
    (picture, { s with composedLast := some picture })

/-- A picture that is kept in `composedLast` is the `composed` picture of now. -/
def Fresh (s : Screen) : Prop :=
  ∀ picture, s.composedLast = some picture → picture = s.composed

/-- On a screen that keeps no stale picture the `frame` is the `composed` picture. -/
theorem frame_fst_of_fresh {s : Screen} (h : s.Fresh) : s.frame.1 = s.composed := by
  unfold frame
  split
  · next picture hp => exact h picture hp
  · rfl

/-- Taking the `frame` changes nothing that is drawn. -/
theorem composed_frame_snd (s : Screen) : s.frame.2.composed = s.composed := by
  unfold frame
  split <;> rfl

end Screen

end TextArt
