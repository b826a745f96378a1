import TextArt.Proofs.Tiling

namespace TextArt

/-!
# Cells — what the pixels of a terminal stand for

The three rasters of a terminal show a grid of cells.  A cell has a face, unless it is
blank, and it blinks or it does not; a character gives its cell a face, and makes the
cell blink, makes it stop, or leaves that as it is.

* `Cell`, `Cell.write` — a cell, and what a character makes of it;
* `Cell.visible`, `Cell.mask` — the pixels of a cell on the visible raster and on the
  masks;
* `Screen.Depicts` — the rasters of a screen are the pixels of a grid of cells, which
  every edit preserves (`Screen.Depicts.edit`);
* `Reading.pixel?_visible`, `Reading.pixel?_mask` — so the rasters of a terminal on its way
  through any stream are the pixels of the cells that its script has written.
-/

/-- A character in the two colours it was drawn with, `ink` and `paper`. -/
structure Face where
  code : UInt8
  ink : Color
  paper : Color
  deriving DecidableEq, Repr

/-- A blinking character: in ink on `onPaper`, and then nothing but `off`. -/
structure Blinker where
  code : UInt8
  ink : Color
  onPaper : Color
  off : Color
  deriving DecidableEq, Repr

/-- What a cell of a screen shows: the `face` drawn last, and what blinks in it, which need not be
    the same character. -/
structure Cell where
  face : Option Face := none
  blinker : Option Blinker := none
  deriving DecidableEq, Repr

/-- The pixels of a character that is drawn once, where `font.inked` says which of the two colours a
    pixel has. -/
def Face.tile (f : Face) (font : Font) : Tile :=
  fun i j => if font.inked f.code i j then f.ink else f.paper

/-- The pixels of a blinking character in a `Phase`. -/
def Blinker.tile (b : Blinker) (font : Font) : Phase → Tile
  | .on => fun i j => if font.inked b.code i j then b.ink else b.onPaper
  | .off => fun _ _ => b.off

namespace Cell

/-- The pixels of a cell on the visible raster; a blank cell has colour 0 of the `palette`. -/
def visible (font : Font) (palette : Palette) (c : Cell) : Tile :=
  match c.face with
  | none => fun _ _ => palette.color 0
  | some f => f.tile font

/-- The pixels of a cell on the mask of a `Phase`, which is `transparent` where nothing blinks. -/
def mask (font : Font) (phase : Phase) (c : Cell) : Tile :=
  match c.blinker with
  | none => fun _ _ => .transparent
  | some b => b.tile font phase

/-- The cell after a character is drawn in it with a `Pen`. What is done to the masks is decided by
    `blink`, `icecolors` and the paper of the pen. -/
def write (palette : Palette) (icecolors : Bool) (code : UInt8) (pen : Pen) (c : Cell) : Cell :=
  let look := pen.look palette icecolors
  { face := some ⟨code, look.ink, look.paper⟩
    blinker :=
      match look.masks with
      | .keep => c.blinker
      | .clear => none
      | .blink onPaper off => some ⟨code, look.ink, onPaper, off⟩ }

end Cell

/-- The cells that a `Script` has written, on a screen of some rows. -/
def Script.cells (c : Script) (palette : Palette) (icecolors : Bool) (rows : Nat) : Grid Cell :=
  c.grid rows {} (Cell.write palette icecolors)

@[simp] theorem Script.rows_cells (c : Script) (palette : Palette) (icecolors : Bool)
    (rows : Nat) : (c.cells palette icecolors rows).rows = rows :=
  c.rows_grid ..

/-! ### What the drawing steps of a screen do to its rasters -/

namespace Font

/-- A character painted by `font.paint` is the `tile` of its face. -/
theorem getElem?_paint_face (font : Font) (f : Face) (i j : Nat) (hi : i < font.width)
    (hj : j < font.height) :
    (font.paint f.code f.ink f.paper)[j * font.width + i]? = some (f.tile font i j) :=
  font.getElem?_paint f.code f.ink f.paper hi hj

end Font

namespace Screen

variable (s : Screen)

/-- A character is `put` on the visible raster whatever its `Look` does to the masks. -/
theorem visible_write (font : Font) (code : UInt8) (look : Look) (column row : Nat) :
    (s.write font code look column row).visible
      = s.visible.put (column * s.cellWidth) (row * s.cellHeight) s.cellWidth s.cellHeight
          (font.paint code look.ink look.paper) := by
  unfold write
  dsimp only
  split <;> rfl

/-- A `Look` whose `masks` are `keep` leaves both masks as they are. -/
theorem mask_write_keep (font : Font) (code : UInt8) {look : Look} (column row : Nat)
    (h : look.masks = .keep) (phase : Phase) :
    (s.write font code look column row).mask phase = s.mask phase := by
  unfold write
  rw [h]
  cases phase <;> rfl

/-- A `Look` whose `masks` are `clear` takes the cell from both masks. -/
theorem mask_write_clear (font : Font) (code : UInt8) {look : Look} (column row : Nat)
    (h : look.masks = .clear) (phase : Phase) :
    (s.write font code look column row).mask phase
      = (s.mask phase).fill (column * s.cellWidth) (row * s.cellHeight) s.cellWidth
          s.cellHeight .transparent := by
  unfold write
  rw [h]
  cases phase <;> rfl

/-- The bitmap of a blinking `Look` in a `Phase`. -/
def blinkBitmap (font : Font) (code : UInt8) (ink onPaper off : Color) : Phase → Array Color
  | .on => font.paint code ink onPaper
  | .off => font.paint code off off

/-- A `Look` whose `masks` are `blink` is put on them by the `blinkBitmap` of the phase. -/
theorem mask_write_blink (font : Font) (code : UInt8) {look : Look} (column row : Nat)
    {onPaper off : Color} (h : look.masks = .blink onPaper off) (phase : Phase) :
    (s.write font code look column row).mask phase
      = (s.mask phase).put (column * s.cellWidth) (row * s.cellHeight) s.cellWidth
          s.cellHeight (blinkBitmap font code look.ink onPaper off phase) := by
  unfold write
  rw [h]
  cases phase <;> rfl

theorem mask_clearArea (x y w h : Nat) (phase : Phase) :
    (s.clearArea x y w h).mask phase = (s.mask phase).fill x y w h .transparent := by
  cases phase <;> rfl

theorem mask_scroll (phase : Phase) :
    s.scroll.mask phase
      = ((s.mask phase).shiftUp s.cellHeight).fill 0 ((s.rows - 1) * s.cellHeight)
          (s.visible.shiftUp s.cellHeight).width s.cellHeight .transparent := by
  cases phase <;> rfl

/-! ### Depicting -/

/-- The rasters of a `Screen` are the pixels of a `Grid` of cells: the visible one, and the mask of
    either phase. -/
structure Depicts (font : Font) (palette : Palette) (columns : Nat) (s : Screen)
    (g : Grid Cell) : Prop where
  rows_eq : s.rows = g.rows
  cellWidth_eq : s.cellWidth = font.width
  cellHeight_eq : s.cellHeight = font.height
  background_eq : s.background = palette.color 0
  visible : s.visible.Tiled columns font.width font.height (g.map (Cell.visible font palette))
  mask : ∀ phase, (s.mask phase).Tiled columns font.width font.height
    (g.map (Cell.mask font phase))

variable {s} {font : Font} {palette : Palette} {columns : Nat} {g : Grid Cell}

/-- A new screen `Depicts` blank cells. -/
theorem depicts_new (font : Font) (palette : Palette) (columns rows : Nat) :
    Depicts font palette columns (.new columns rows font.width font.height (palette.color 0))
      (.blank rows {}) where
  rows_eq := rfl
  cellWidth_eq := rfl
  cellHeight_eq := rfl
  background_eq := rfl
  visible := Raster.tiled_fill_blank columns rows font.width font.height (palette.color 0)
  mask := by
    intro phase
    cases phase
    · exact Raster.tiled_fill_blank columns rows font.width font.height .transparent
    · exact Raster.tiled_fill_blank columns rows font.width font.height .transparent

namespace Depicts

/-- `Screen.write` writes the cell: drawing a character is `Cell.write` at one place of the grid. -/
theorem write (h : Depicts font palette columns s g) (icecolors : Bool) (column row : Nat)
    (code : UInt8) (pen : Pen) :
    Depicts font palette columns
      (s.write font code (pen.look palette icecolors) column row)
      (g.change column row (Cell.write palette icecolors code pen)) := by
  -- whatever the look, the measures and the background of the screen stay
  have hframe : (s.write font code (pen.look palette icecolors) column row).rows = s.rows
      ∧ (s.write font code (pen.look palette icecolors) column row).cellWidth = s.cellWidth
      ∧ (s.write font code (pen.look palette icecolors) column row).cellHeight = s.cellHeight
      ∧ (s.write font code (pen.look palette icecolors) column row).background
        = s.background := by
    unfold Screen.write
    dsimp only
    split <;> exact ⟨rfl, rfl, rfl, rfl⟩
  obtain ⟨hrows, hwidth, hheight, hbackground⟩ := hframe
  refine ⟨hrows.trans h.rows_eq, hwidth.trans h.cellWidth_eq, hheight.trans h.cellHeight_eq,
    hbackground.trans h.background_eq, ?_, fun phase => ?_⟩
  · have hcell : ∀ c : Cell, (c.write palette icecolors code pen).visible font palette
        = Face.tile ⟨code, (pen.look palette icecolors).ink,
            (pen.look palette icecolors).paper⟩ font := fun _ => rfl
    rw [visible_write, h.cellWidth_eq, h.cellHeight_eq, Grid.map_change_const hcell]
    exact h.visible.put column row (Font.size_paint ..)
      (font.getElem?_paint_face ⟨code, _, _⟩)
  · -- the three things that a look may do to the masks
    cases hmasks : (pen.look palette icecolors).masks with
    | keep =>
      have hcell : ∀ c : Cell, (c.write palette icecolors code pen).mask font phase
          = id (c.mask font phase) := by
        intro c
        simp only [Cell.write, Cell.mask, hmasks, id]
      rw [mask_write_keep s font code column row hmasks, Grid.map_change hcell, Grid.change_id]
      exact h.mask phase
    | clear =>
      have hcell : ∀ c : Cell, (c.write palette icecolors code pen).mask font phase
          = fun _ _ => .transparent := by
        intro c
        simp only [Cell.write, Cell.mask, hmasks]
      rw [mask_write_clear s font code column row hmasks, h.cellWidth_eq, h.cellHeight_eq,
        Grid.map_change_const hcell]
      exact (h.mask phase).fill_cell column row .transparent
    | blink onPaper off =>
      have hcell : ∀ c : Cell, (c.write palette icecolors code pen).mask font phase
          = Blinker.tile ⟨code, (pen.look palette icecolors).ink, onPaper, off⟩ font phase := by
        intro c
        simp only [Cell.write, Cell.mask, hmasks]
      rw [mask_write_blink s font code column row hmasks, h.cellWidth_eq, h.cellHeight_eq,
        Grid.map_change_const hcell]
      refine (h.mask phase).put column row ?_ fun i j hi hj => ?_
      · cases phase <;> exact Font.size_paint ..
      · cases phase with
        | on => exact font.getElem?_paint_face ⟨code, _, _⟩ i j hi hj
        | off =>
          -- the off look is the character in its own paper, that is nothing but paper
          rw [blinkBitmap, font.getElem?_paint_face ⟨code, off, off⟩ i j hi hj, Face.tile,
            ite_self]
          rfl

/-- Emptying the rest of a row empties its cells, by `Grid.eraseRest`. -/
theorem clearToEndOfRow (h : Depicts font palette columns s g) (column row : Nat) :
    Depicts font palette columns (s.clearToEndOfRow column row)
      (g.eraseRest {} column row) := by
  refine ⟨h.rows_eq, h.cellWidth_eq, h.cellHeight_eq, h.background_eq, ?_, fun phase => ?_⟩
  · rw [Grid.map_eraseRest]
    show (s.visible.fill (column * s.cellWidth) (row * s.cellHeight)
      (s.visible.width - column * s.cellWidth) s.cellHeight s.background).Tiled ..
    rw [h.cellWidth_eq, h.cellHeight_eq, h.background_eq]
    exact h.visible.fill_rest h.visible rfl column row _
  · rw [Grid.map_eraseRest, Screen.clearToEndOfRow, mask_clearArea, h.cellWidth_eq,
      h.cellHeight_eq]
    -- the masks lose as much of the row as the picture does, since they are measured by it
    exact (h.mask phase).fill_rest h.visible rfl column row _

/-- Emptying the screen empties all cells, by `Grid.eraseAll`. -/
theorem clearAll (h : Depicts font palette columns s g) :
    Depicts font palette columns s.clearAll (g.eraseAll {}) := by
  refine ⟨h.rows_eq, h.cellWidth_eq, h.cellHeight_eq, h.background_eq, ?_, fun phase => ?_⟩
  · rw [Grid.map_eraseAll]
    show (s.visible.fill 0 0 s.visible.width s.visible.height s.background).Tiled ..
    rw [h.background_eq]
    exact h.visible.fill_all h.visible rfl _
  · rw [Grid.map_eraseAll, Screen.clearAll, mask_clearArea]
    exact (h.mask phase).fill_all h.visible rfl _

/-- Scrolling drops the top row of cells and adds a blank one, by `Grid.scroll`. -/
theorem scroll (h : Depicts font palette columns s g) :
    Depicts font palette columns s.scroll (g.scroll {}) := by
  refine ⟨h.rows_eq, h.cellWidth_eq, h.cellHeight_eq, h.background_eq, ?_, fun phase => ?_⟩
  · rw [Grid.map_scroll]
    -- the freed row is as wide as the visible raster was before it moved
    show ((s.visible.shiftUp s.cellHeight).fill 0 ((s.rows - 1) * s.cellHeight)
      (s.visible.shiftUp s.cellHeight).width s.cellHeight s.background).Tiled ..
    rw [Raster.width_shiftUp, h.cellHeight_eq, h.rows_eq, h.background_eq]
    exact h.visible.scroll h.visible rfl _
  · rw [Grid.map_scroll, mask_scroll, Raster.width_shiftUp, h.cellHeight_eq, h.rows_eq]
    exact (h.mask phase).scroll h.visible rfl _

/-- An `Edit` of the screen is the edit of the cells by `Grid.edit`. -/
theorem edit (h : Depicts font palette columns s g) (icecolors : Bool) (e : Edit) :
    Depicts font palette columns (e.onScreen font palette icecolors s)
      (g.edit {} (Cell.write palette icecolors) e) := by
  cases e with
  | glyph column row code pen => exact h.write icecolors column row code pen
  | eraseRest column row => exact h.clearToEndOfRow column row
  | eraseAll => exact h.clearAll
  | scroll => exact h.scroll

/-- Any number of edits of the screen are these edits of the cells; the screen still `Depicts`
    them. -/
theorem foldr_edit (h : Depicts font palette columns s g) (icecolors : Bool)
    (edits : List Edit) :
    Depicts font palette columns
      (edits.foldr (Edit.onScreen font palette icecolors) s)
      (edits.foldr (Grid.edit {} (Cell.write palette icecolors)) g) := by
  induction edits with
  | nil => exact h
  | cons e edits ih => exact ih.edit icecolors e

/-- The picture with a phase over it: the `mask` of every cell lies over what is `visible` of the
    cell. -/
theorem pixel?_overlay (h : Depicts font palette columns s g) (phase : Phase) (x y : Nat) :
    (s.visible.overlay (s.mask phase)).pixel? x y
      = if Raster.OnCells columns g.rows font.width font.height x y then
          some (((g.cell (x / font.width) (y / font.height)).mask font phase
              (x % font.width) (y % font.height)).onto
            ((g.cell (x / font.width) (y / font.height)).visible font palette
              (x % font.width) (y % font.height)))
        else none := by
  by_cases hp : Raster.OnCells columns g.rows font.width font.height x y
  -- both rasters have a pixel just where there is a cell, so they have one size there
  · have hsize := h.visible.sameSize (h.mask phase) rfl hp
    have hmask := (h.mask phase x y).trans (if_pos hp)
    have hvisible := (h.visible x y).trans (if_pos hp)
    rw [if_pos hp, Raster.pixel?_overlay _ hsize, hmask, hvisible]
    rfl
  · have hoff : ¬ (x < s.visible.width ∧ y < s.visible.height) :=
      fun hon => hp ((h.visible.isSome_iff x y).1 hon)
    rw [if_neg hp, Raster.pixel?_eq_none_iff, Raster.width_overlay, Raster.height_overlay]
    omega

end Depicts

end Screen

/-! ### Whole streams -/

namespace Reading

/-- The terminal after `n` bytes of a stream that it takes from the beginning. -/
def freshAfter (font : Font) (palette : Palette) (icecolors honorsClear : Bool)
    (columns rows : Nat) (s : ByteStream) (n : Nat) : Terminal :=
  (step^[n] { terminal := .fresh font palette icecolors honorsClear columns rows
              stream := s }).terminal

section

variable (font : Font) (palette : Palette) (icecolors honorsClear : Bool)
  (columns rows : Nat) (s : ByteStream) (n : Nat)

/-- The terminal `freshAfter` some bytes is the one of the `Script` of these bytes. -/
theorem freshAfter_eq :
    freshAfter font palette icecolors honorsClear columns rows s n
      = (Terminal.fresh font palette icecolors honorsClear columns rows).after
          ((Script.fresh columns rows honorsClear).afterBytes n s.rest) :=
  terminal_iterate_step _ s n

/-- The screen `freshAfter` some bytes `Depicts` the cells that the script has written. -/
theorem depicts_freshAfter :
    (freshAfter font palette icecolors honorsClear columns rows s n).screen.Depicts font palette
      columns
      (((Script.fresh columns rows honorsClear).afterBytes n s.rest).cells palette icecolors
        rows) := by
  rw [freshAfter_eq]
  exact (Screen.depicts_new font palette columns rows).foldr_edit icecolors _

/-- A pixel of the picture without blinking is that of `Cell.visible` at its place in the cell. -/
theorem pixel?_visible (x y : Nat) :
    (freshAfter font palette icecolors honorsClear columns rows s n).screen.visible.pixel? x y
      = if Raster.OnCells columns rows font.width font.height x y then
          some (((((Script.fresh columns rows honorsClear).afterBytes n s.rest).cells palette
            icecolors rows).cell (x / font.width) (y / font.height)).visible font palette
              (x % font.width) (y % font.height))
        else none := by
  have hdepicts := depicts_freshAfter font palette icecolors honorsClear columns rows s n
  have hrows := Script.rows_cells ((Script.fresh columns rows honorsClear).afterBytes n s.rest)
    palette icecolors rows
  exact hdepicts.visible.pixel?_eq hrows x y

/-- A pixel of a mask is that of `Cell.mask` at its place in the cell. -/
theorem pixel?_mask (phase : Phase) (x y : Nat) :
    ((freshAfter font palette icecolors honorsClear columns rows s n).screen.mask
        phase).pixel? x y
      = if Raster.OnCells columns rows font.width font.height x y then
          some (((((Script.fresh columns rows honorsClear).afterBytes n s.rest).cells palette
            icecolors rows).cell (x / font.width) (y / font.height)).mask font phase
              (x % font.width) (y % font.height))
        else none := by
  have hdepicts := depicts_freshAfter font palette icecolors honorsClear columns rows s n
  have hrows := Script.rows_cells ((Script.fresh columns rows honorsClear).afterBytes n s.rest)
    palette icecolors rows
  exact (hdepicts.mask phase).pixel?_eq hrows x y

/-- A pixel of the picture with a phase over it is that of `Cell.visible` under that of
    `Cell.mask`. -/
theorem pixel?_overlay (phase : Phase) (x y : Nat) :
    ((freshAfter font palette icecolors honorsClear columns rows s n).screen.visible.overlay
        ((freshAfter font palette icecolors honorsClear columns rows s n).screen.mask
          phase)).pixel? x y
      = if Raster.OnCells columns rows font.width font.height x y then
          some (((((Script.fresh columns rows honorsClear).afterBytes n s.rest).cells palette
              icecolors rows).cell (x / font.width) (y / font.height)).mask font phase
                (x % font.width) (y % font.height) |>.onto
            (((((Script.fresh columns rows honorsClear).afterBytes n s.rest).cells palette
              icecolors rows).cell (x / font.width) (y / font.height)).visible font palette
                (x % font.width) (y % font.height)))
        else none := by
  have hdepicts := depicts_freshAfter font palette icecolors honorsClear columns rows s n
  have hoverlay := hdepicts.pixel?_overlay phase x y
  rw [Script.rows_cells] at hoverlay
  exact hoverlay

end

/-- **Pixels depict cells.** Run a terminal over a stream, and beside it the `Script` that knows
    nothing of pixels: after any number of bytes the two agree on session, open sequence and
    scrolls, and every pixel of the three rasters is the one that `Cell.visible` or `Cell.mask` has
    for the cell it lies in, at its place in the cell. -/
theorem rasters_depict_cells (font : Font) (palette : Palette) (icecolors honorsClear : Bool)
    (columns rows : Nat) (s : ByteStream) (n x y : Nat) :
    let terminal := freshAfter font palette icecolors honorsClear columns rows s n
    let script := (Script.fresh columns rows honorsClear).afterBytes n s.rest
    let cell := (script.cells palette icecolors rows).cell (x / font.width) (y / font.height)
    let place := (x % font.width, y % font.height)
    (terminal.session = script.session
      ∧ terminal.pending = script.pending
      ∧ terminal.scrolls = script.scrolls)
    ∧ terminal.screen.visible.pixel? x y
      = (if Raster.OnCells columns rows font.width font.height x y
          then some (cell.visible font palette place.1 place.2) else none)
    ∧ terminal.screen.onMask.pixel? x y
      = (if Raster.OnCells columns rows font.width font.height x y
          then some (cell.mask font .on place.1 place.2) else none)
    ∧ terminal.screen.offMask.pixel? x y
      = (if Raster.OnCells columns rows font.width font.height x y
          then some (cell.mask font .off place.1 place.2) else none) := by
  intro terminal script cell place
  have hterminal := freshAfter_eq font palette icecolors honorsClear columns rows s n
  refine ⟨⟨congrArg Terminal.session hterminal, congrArg Terminal.pending hterminal,
    congrArg Terminal.scrolls hterminal⟩, ?_, ?_, ?_⟩
  · exact pixel?_visible font palette icecolors honorsClear columns rows s n x y
  · exact pixel?_mask font palette icecolors honorsClear columns rows s n .on x y
  · exact pixel?_mask font palette icecolors honorsClear columns rows s n .off x y

/-- A case of `rasters_depict_cells`: a blinking character in the first of two cells. -/
example :
    let script := (Script.fresh 2 1 true).afterBytes 5 [0x1B, 0x5B, 0x35, 0x6D, 0x41]
    let cells := script.cells .ansi false 1
    cells.cell 0 0
        = { face := some ⟨0x41, .rgb 170 170 170, .rgb 0 0 0⟩
            blinker := some ⟨0x41, .rgb 170 170 170, .rgb 85 85 85, .rgb 0 0 0⟩ }
      ∧ cells.cell 1 0 = {} := by
  decide

end Reading

end TextArt
