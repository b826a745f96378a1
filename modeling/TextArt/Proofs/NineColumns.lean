import TextArt.Proofs.Forms
import TextArt.Proofs.Texts
import TextArt.Render

namespace TextArt

/-!
# Nine columns — a picture in wider cells

Cells of nine pixel columns show what cells of eight columns show, and one column more.  A
character that is made of lines or blocks goes on into the ninth column, so that it meets the
character to its right; any other one ends in its own paper.

* `Player.terminal_renderAll_new` — a player that draws all of a file takes its art byte by byte
  from the first state on;
* `Font.Widens` — a font has the characters of another one, in cells of nine columns;
  `Font.widens_preset` says so of the built-in fonts;
* `Cell.ninthVisible`, `Cell.ninthMask` — what the ninth column of a cell shows;
* `Screen.Depicts.nine_columns` — two screens that depict the same cells in both kinds of fonts;
* `nine_columns_extend_eight` — so the pictures of a file in both kinds of cells are related.
-/

/-! ### All of a file -/

/-- Bytes that lead from one `Place` to another are as many times `Reading.step`. -/
theorem Place.Takes.place_iterate_step {n : Nat} {p q : Place} (h : Takes n p q) {r : Reading}
    (hr : r.place = p) : (Reading.step^[n] r).place = q := by
  induction h generalizing r with
  | refl p => exact hr
  | head hne _ ih =>
    rw [Function.iterate_succ_apply]
    exact ih ((Reading.place_step r).trans (congrArg next hr))

namespace Terminal

/-- To `readToEnd` takes a step for every byte that is left of the stream; at the end, where some
    bytes were taken along with others, there is nothing more to do. -/
theorem terminal_readToEnd_eq_iterate (t : Terminal) (s : ByteStream) :
    (t.readToEnd s).terminal
      = (Reading.step^[s.rest.length] { terminal := t, stream := s }).terminal := by
  have htakes := t.takes_readToEnd s
  have hlength := htakes.add_length_le
  obtain ⟨left, hleft⟩ : ∃ left, s.rest.length = left + (t.readToEnd s).consumed :=
    Nat.exists_eq_add_of_le' (Nat.le_of_add_right_le hlength)
  have hplace := htakes.place_iterate_step (r := { terminal := t, stream := s }) rfl
  -- the steps that are left over after the last byte change nothing
  have hend : (Reading.step^[(t.readToEnd s).consumed]
      { terminal := t, stream := s }).stream.rest = [] :=
    (congrArg (fun p : Place => p.stream.rest) hplace).trans (t.rest_readToEnd s)
  rw [hleft, Function.iterate_add_apply, Function.iterate_fixed (Reading.step_of_nil hend)]
  exact (congrArg Place.terminal hplace).symm

end Terminal

/-- A `new` player on which `renderAll` is called takes its art byte by byte from the first state
    on. -/
theorem Player.terminal_renderAll_new (file : Bytes) (config : Config) :
    let stream := ByteStream.ofFile file
    let columns := config.columnsFor (stream.record.bind Sauce.columns)
    (Player.new file config).renderAll.2.terminal
      = Reading.freshAfter (Font.preset config.font config.bits) (Palette.ofBits config.bits)
          config.icecolors config.honorsClear columns config.rows stream stream.art.length := by
  intro stream columns
  have hreset : (Terminal.new config columns config.rows columns config.rows).reset
      = Terminal.fresh (Font.preset config.font config.bits) (Palette.ofBits config.bits)
          config.icecolors config.honorsClear columns config.rows :=
    Terminal.reset_blank ..
  show ((Terminal.new config columns config.rows columns config.rows).reset.readToEnd
    stream).terminal = _
  rw [hreset]
  exact Terminal.terminal_readToEnd_eq_iterate _ stream

/-! ### Fonts -/

namespace Font

/-- The font `wide` has the characters of `narrow`, in cells of nine columns: the ninth column
    repeats the eighth for the characters that run on, and is blank for the others. -/
structure Widens (wide narrow : Font) : Prop where
  width_wide : wide.width = 9
  width_narrow : narrow.width = 8
  height_eq : wide.height = narrow.height
  inked_eq : ∀ code i j, i < 8 → wide.inked code i j = narrow.inked code i j
  inked_ninth : ∀ code j, wide.inked code 8 j = (Glyph.runsOn code && wide.inked code 7 j)

theorem widens_ofDrawings (name : String) (drawings : Array Nat) (height : Nat) :
    (ofDrawings name drawings height .nine).Widens (ofDrawings name drawings height .eight) := by
  have hwide : ∀ code i j, i < 9 → j < height →
      (ofDrawings name drawings height .nine).inked code i j
        = Glyph.inkNine drawings height code i j :=
    fun code i j => inked_ofShapes name (Glyph.inkNine drawings height) code
  have hnarrow : ∀ code i j, i < 8 → j < height →
      (ofDrawings name drawings height .eight).inked code i j
        = Glyph.ink drawings height code i j :=
    fun code i j => inked_ofShapes name (Glyph.ink drawings height) code
  -- within the height both fonts ask the drawing; below it there is no ink in either
  refine ⟨rfl, rfl, rfl, fun code i j hi => ?_, fun code j => ?_⟩
  · rcases Nat.lt_or_ge j height with hj | hj
    · rw [hwide code i j (by omega) hj, hnarrow code i j hi hj]
      exact if_pos hi
    · rw [inked_of_height_le _ code i hj, inked_of_height_le _ code i hj]
  · rcases Nat.lt_or_ge j height with hj | hj
    · rw [hwide code 8 j (by decide) hj, hwide code 7 j (by decide) hj]
      rfl
    · rw [inked_of_height_le _ code 8 hj, inked_of_height_le _ code 7 hj, Bool.and_false]

/-- Every built-in font in cells of nine columns `Widens` the one in cells of eight. -/
theorem widens_preset (name : String) : (preset name .nine).Widens (preset name .eight) := by
  unfold preset
  split <;> exact widens_ofDrawings ..

/-- The cells of a `preset` font have eight columns or nine. -/
theorem width_preset (name : String) (bits : Bits) :
    0 < (preset name bits).width ∧ (preset name bits).width ≤ 9 := by
  have hwidth : ∀ name drawings height,
      0 < (ofDrawings name drawings height bits).width
        ∧ (ofDrawings name drawings height bits).width ≤ 9 := by
    intro name drawings height
    unfold ofDrawings
    split
    · exact ⟨Nat.succ_pos 8, Nat.le_refl 9⟩
    · exact ⟨Nat.succ_pos 7, Nat.le_succ 8⟩
  unfold preset
  split
  · exact hwidth ..
  · exact hwidth ..

/-- The cells of a `preset` font have at most sixteen rows, and they have some. -/
theorem height_preset (name : String) (bits : Bits) :
    0 < (preset name bits).height ∧ (preset name bits).height ≤ 16 := by
  have hheight : ∀ name drawings height,
      (ofDrawings name drawings height bits).height = height := by
    intro name drawings height
    unfold ofDrawings
    split <;> rfl
  unfold preset
  split
  · rw [hheight]
    decide
  · rw [hheight]
    decide

end Font

/-! ### Cells -/

/-- The colour of a character in the ninth column, where it has the colour `eighth` in the eighth
    one. -/
def ninth (code : UInt8) (paper eighth : Color) : Color :=
  if 0xC0 ≤ code ∧ code ≤ 0xDF then eighth else paper

/-- The paper of a blinking character in a `Phase`. -/
def Blinker.paper (b : Blinker) : Phase → Color
  | .on => b.onPaper
  | .off => b.off

namespace Cell

/-- The colour of a cell in the ninth column on the visible raster, given that in the `eighth`. -/
def ninthVisible (palette : Palette) (c : Cell) (eighth : Color) : Color :=
  match c.face with
  | none => palette.color 0
  | some f => ninth f.code f.paper eighth

/-- The colour of a cell in the ninth column on the mask of a phase, given that in the `eighth`. -/
def ninthMask (phase : Phase) (c : Cell) (eighth : Color) : Color :=
  match c.blinker with
  | none => .transparent
  | some b => ninth b.code (b.paper phase) eighth

end Cell

namespace Font.Widens

variable {wide narrow : Font} (h : wide.Widens narrow)

include h

theorem tile_eq (f : Face) {i : Nat} (hi : i < 8) (j : Nat) :
    f.tile wide i j = f.tile narrow i j := by
  unfold Face.tile
  rw [h.inked_eq f.code i j hi]

theorem tile_ninth (f : Face) (j : Nat) :
    f.tile wide 8 j = ninth f.code f.paper (f.tile wide 7 j) := by
  have hruns : Glyph.runsOn f.code = true ↔ 0xC0 ≤ f.code ∧ f.code ≤ 0xDF := by
    simp [Glyph.runsOn, UInt8.le_iff_toNat_le]
  unfold Face.tile ninth
  rw [h.inked_ninth f.code j]
  by_cases hcode : 0xC0 ≤ f.code ∧ f.code ≤ 0xDF
  · rw [if_pos hcode, hruns.mpr hcode, Bool.true_and]
  · rw [if_neg hcode, Bool.eq_false_iff.mpr (fun htrue => hcode (hruns.mp htrue)), Bool.false_and]
    rfl

theorem visible_eq (palette : Palette) (c : Cell) {i : Nat} (hi : i < 8) (j : Nat) :
    c.visible wide palette i j = c.visible narrow palette i j := by
  unfold Cell.visible
  cases c.face with
  | none => rfl
  | some f => exact h.tile_eq f hi j

/-- On the visible raster a cell goes on into the ninth column by `ninthVisible`, as its face
    does. -/
theorem visible_ninth (palette : Palette) (c : Cell) (j : Nat) :
    c.visible wide palette 8 j = c.ninthVisible palette (c.visible wide palette 7 j) := by
  unfold Cell.visible Cell.ninthVisible
  cases c.face with
  | none => rfl
  | some f => exact h.tile_ninth f j

theorem mask_eq (phase : Phase) (c : Cell) {i : Nat} (hi : i < 8) (j : Nat) :
    c.mask wide phase i j = c.mask narrow phase i j := by
  unfold Cell.mask
  cases c.blinker with
  | none => rfl
  | some b =>
    cases phase with
    | on => exact h.tile_eq ⟨b.code, b.ink, b.onPaper⟩ hi j
    | off => rfl

/-- On a mask a cell goes on by `ninthMask`, as what blinks in it does, and while the blink is off
    that is nothing but paper. -/
theorem mask_ninth (phase : Phase) (c : Cell) (j : Nat) :
    c.mask wide phase 8 j = c.ninthMask phase (c.mask wide phase 7 j) := by
  unfold Cell.mask Cell.ninthMask
  cases c.blinker with
  | none => rfl
  | some b =>
    cases phase with
    | on => exact h.tile_ninth ⟨b.code, b.ink, b.onPaper⟩ j
    | off => exact (ite_self _).symm

end Font.Widens

/-! ### Columns of cells -/

/-- The screens that can be asked for, of at most `maxColumns` and `maxRows`, have so few pixels
    that their bytes can be counted. -/
theorem Raster.bytes_lt_of_small {columns rows w h : Nat} (hcolumns : columns ≤ maxColumns)
    (hrows : rows ≤ maxRows) (hw : w ≤ 9) (hh : h ≤ 16) :
    columns * w * (rows * h) * 4 < byteLimit :=
  calc columns * w * (rows * h) * 4
      ≤ maxColumns * 9 * (maxRows * 16) * 4 :=
        Nat.mul_le_mul_right 4 (Nat.mul_le_mul (Nat.mul_le_mul hcolumns hw)
          (Nat.mul_le_mul hrows hh))
    _ < byteLimit := by decide

/-- A pixel of a column of cells is `OnCells` if the column and the pixel row are on the screen. -/
theorem Raster.onCells_column_iff {columns rows w h i : Nat}
    (hfits : columns * w * (rows * h) * 4 < byteLimit) (hi : i < w) (column y : Nat) :
    OnCells columns rows w h (w * column + i) y ↔ column < columns ∧ y < rows * h := by
  -- a column of pixels is on the screen just if its column of cells is
  have hcolumn : w * column + i < columns * w ↔ column < columns := by
    constructor
    · intro hx
      have hless : w * column < w * columns := by
        rw [Nat.mul_comm w columns]
        omega
      exact Nat.lt_of_mul_lt_mul_left hless
    · intro hc
      calc w * column + i < w * column + w := by omega
        _ = (column + 1) * w := by rw [Nat.add_mul, Nat.one_mul, Nat.mul_comm]
        _ ≤ columns * w := Nat.mul_le_mul_right w hc
  unfold OnCells
  rw [hcolumn]
  exact ⟨fun hp => ⟨hp.1, hp.2.1⟩, fun hp => ⟨hp.1, hp.2, hfits⟩⟩

/-- A pixel of a column of cells in a `Tiled` raster. -/
theorem Raster.Tiled.pixel?_column {r : Raster} {columns w h i : Nat} {g : Grid Tile}
    (hr : r.Tiled columns w h g) (hfits : columns * w * (g.rows * h) * 4 < byteLimit) (hi : i < w)
    (column y : Nat) :
    r.pixel? (w * column + i) y
      = if column < columns ∧ y < g.rows * h then some (g.cell column (y / h) i (y % h))
        else none := by
  have hdiv : (w * column + i) / w = column := by
    rw [Nat.mul_add_div (by omega), Nat.div_eq_of_lt hi, Nat.add_zero]
  have hmod : (w * column + i) % w = i := by
    rw [Nat.mul_add_mod, Nat.mod_eq_of_lt hi]
  have hon := onCells_column_iff hfits hi column y
  rw [hr, hdiv, hmod]
  simp only [hon]

/-- Where cells of nine columns have fewer bytes than `byteLimit`, those of eight columns do. -/
theorem Raster.eight_columns_fit {columns rows h : Nat}
    (hfits : columns * 9 * (rows * h) * 4 < byteLimit) :
    columns * 8 * (rows * h) * 4 < byteLimit :=
  calc columns * 8 * (rows * h) * 4
      ≤ columns * 9 * (rows * h) * 4 :=
        Nat.mul_le_mul_right 4 (Nat.mul_le_mul_right _ (Nat.mul_le_mul_left columns (by decide)))
    _ < byteLimit := hfits

/-- Let two `Tiled` rasters show one grid, in cells of nine columns and of eight. Where the tiles
    agree in the first eight columns the pixels do, and the ninth column is to the eighth what it is
    in the tiles. -/
theorem Raster.Tiled.nine_columns {wide narrow : Raster} {α : Type} {columns h : Nat}
    {g : Grid α} {wideTile narrowTile : α → Tile} {last : α → Color → Color}
    (hwide : wide.Tiled columns 9 h (g.map wideTile))
    (hnarrow : narrow.Tiled columns 8 h (g.map narrowTile))
    (hfits : columns * 9 * (g.rows * h) * 4 < byteLimit)
    (heq : ∀ c i j, i < 8 → wideTile c i j = narrowTile c i j)
    (hlast : ∀ c j, wideTile c 8 j = last c (wideTile c 7 j)) (column y : Nat) :
    (∀ i < 8, wide.pixel? (9 * column + i) y = narrow.pixel? (8 * column + i) y)
    ∧ wide.pixel? (9 * column + 8) y
      = (wide.pixel? (9 * column + 7) y).map (last (g.cell column (y / h))) := by
  constructor
  · intro i hi
    -- pixels in the first eight columns are those of one tile at one place in both
    rw [hwide.pixel?_column hfits (by omega), hnarrow.pixel?_column (eight_columns_fit hfits) hi]
    exact if_congr Iff.rfl (congrArg some (heq _ i _ hi)) rfl
  · rw [hwide.pixel?_column hfits (by decide), hwide.pixel?_column hfits (by decide)]
    split
    · exact congrArg some (hlast _ _)
    · rfl

/-- The height of a raster after `reduce` is that of the raster in blocks. -/
theorem Raster.height_reduce (r : Raster) (factor : Nat) :
    (r.reduce factor).height = if factor ≤ 1 then r.height else blocks r.height factor := by
  unfold reduce
  split <;> rfl

namespace Screen.Depicts

variable {wide narrow : Font} {palette : Palette} {columns : Nat} {s u : Screen} {g : Grid Cell}
  (h : wide.Widens narrow)

include h

/-- For as many cells, a screen in a font and a screen in one that widens it are equally high, and
    every cell is wider by a column; what they `Depicts` gives both sizes. -/
theorem size_visible_eq (hs : s.Depicts wide palette columns g)
    (hu : u.Depicts narrow palette columns g) (hcolumns : 0 < columns) (hrows : 0 < g.rows)
    (hpositive : 0 < wide.height)
    (hfits : columns * 9 * (g.rows * wide.height) * 4 < Raster.byteLimit) :
    (s.visible.width = columns * 9 ∧ u.visible.width = columns * 8)
      ∧ s.visible.height = u.visible.height := by
  have hrow : 0 < g.rows * wide.height := Nat.mul_pos hrows hpositive
  have hvisible := hs.visible
  have hvisible' := hu.visible
  rw [h.width_wide] at hvisible
  rw [h.width_narrow, ← h.height_eq] at hvisible'
  -- with one pixel on the screen the raster has the sides of the screen
  have hfirst : Raster.OnCells columns g.rows 9 wide.height 0 0 :=
    ⟨Nat.mul_pos hcolumns (by decide), hrow, hfits⟩
  have hfirst' : Raster.OnCells columns g.rows 8 wide.height 0 0 :=
    ⟨Nat.mul_pos hcolumns (by decide), hrow, Raster.eight_columns_fit hfits⟩
  obtain ⟨hwidth, hheight⟩ := hvisible.size_eq hfirst
  obtain ⟨hwidth', hheight'⟩ := hvisible'.size_eq hfirst'
  exact ⟨⟨hwidth, hwidth'⟩, hheight.trans hheight'.symm⟩

/-- Two screens that are related by `Depicts` to one grid of cells, in a font and in one that widens
    it: all of their rasters agree in the first eight columns of a cell, and the ninth column is
    what the cell makes of the eighth. -/
theorem nine_columns (hs : s.Depicts wide palette columns g)
    (hu : u.Depicts narrow palette columns g)
    (hfits : columns * 9 * (g.rows * wide.height) * 4 < Raster.byteLimit) (column y : Nat) :
    let cell := g.cell column (y / wide.height)
    ((∀ i < 8, s.visible.pixel? (9 * column + i) y = u.visible.pixel? (8 * column + i) y)
      ∧ s.visible.pixel? (9 * column + 8) y
        = (s.visible.pixel? (9 * column + 7) y).map (cell.ninthVisible palette))
    ∧ ∀ phase,
      (∀ i < 8, (s.mask phase).pixel? (9 * column + i) y
        = (u.mask phase).pixel? (8 * column + i) y)
      ∧ (s.mask phase).pixel? (9 * column + 8) y
        = ((s.mask phase).pixel? (9 * column + 7) y).map (cell.ninthMask phase) := by
  intro cell
  have hvisible := hs.visible
  have hvisible' := hu.visible
  rw [h.width_wide] at hvisible
  rw [h.width_narrow, ← h.height_eq] at hvisible'
  refine ⟨?_, fun phase => ?_⟩
  · exact hvisible.nine_columns hvisible' hfits (fun c i j hi => h.visible_eq palette c hi j)
      (h.visible_ninth palette) column y
  · have hmask := hs.mask phase
    have hmask' := hu.mask phase
    rw [h.width_wide] at hmask
    rw [h.width_narrow, ← h.height_eq] at hmask'
    exact hmask.nine_columns hmask' hfits (fun c i j hi => h.mask_eq phase c hi j)
      (h.mask_ninth phase) column y

end Screen.Depicts

/-- The cells that the `Script` of a terminal has written after `n` bytes of a stream. -/
def Reading.cellsAfter (palette : Palette) (icecolors honorsClear : Bool) (columns rows : Nat)
    (s : ByteStream) (n : Nat) : Grid Cell :=
  ((Script.fresh columns rows honorsClear).afterBytes n s.rest).cells palette icecolors rows

/-! ### Both pictures of a file -/

/-- **Nine columns extend eight.** Draw a file by `renderAll` for a user who asks for cells of eight
    columns by `bits`, and draw it for one who asks for cells of nine and for the same things
    otherwise. The two terminals end with the same session, open sequence and scrolls; the pictures
    are equally high and have as many cells in a row; and on the visible raster and on both masks,
    the first eight columns of every cell are the same, while the ninth is `ninthVisible` or
    `ninthMask` of the eighth: it repeats it where the cell has a character that runs on, and is
    nothing but the paper of the cell elsewhere. -/
theorem nine_columns_extend_eight (file : Bytes) (o : Options) :
    let wish (bits : String) : Options := { o with bits := some bits }
    let drawn (bits : String) : Terminal :=
      (Player.new file (.ofOptions (wish bits))).renderAll.2.terminal
    let eight := drawn "8"
    let nine := drawn "9"
    let stream := ByteStream.ofFile file
    let config := Config.ofOptions o
    let columns := config.columnsFor (stream.record.bind Sauce.columns)
    let cells := Reading.cellsAfter .ansi config.icecolors config.honorsClear columns config.rows
      stream stream.art.length
    (nine.session = eight.session ∧ nine.pending = eight.pending ∧ nine.scrolls = eight.scrolls)
    ∧ (nine.screen.visible.width = columns * 9 ∧ eight.screen.visible.width = columns * 8)
    ∧ (render file (wish "9")).height = (render file (wish "8")).height
    ∧ ∀ column y,
      let cell := cells.cell column (y / nine.font.height)
      ((∀ i < 8, nine.screen.visible.pixel? (9 * column + i) y
          = eight.screen.visible.pixel? (8 * column + i) y)
        ∧ nine.screen.visible.pixel? (9 * column + 8) y
          = (nine.screen.visible.pixel? (9 * column + 7) y).map (cell.ninthVisible .ansi))
      ∧ ∀ phase,
        (∀ i < 8, (nine.screen.mask phase).pixel? (9 * column + i) y
          = (eight.screen.mask phase).pixel? (8 * column + i) y)
        ∧ (nine.screen.mask phase).pixel? (9 * column + 8) y
          = ((nine.screen.mask phase).pixel? (9 * column + 7) y).map (cell.ninthMask phase) := by
  intro wish drawn eight nine stream config columns cells
  let eightFont := Font.preset config.font .eight
  let nineFont := Font.preset config.font .nine
  -- both fonts are drawn through one script, whose cells know nothing of the width
  have hwidens : nineFont.Widens eightFont := Font.widens_preset config.font
  have hdrawnEight : eight = Reading.freshAfter eightFont .ansi config.icecolors config.honorsClear
      columns config.rows stream stream.art.length :=
    Player.terminal_renderAll_new file (.ofOptions (wish "8"))
  have hdrawnNine : nine = Reading.freshAfter nineFont .ansi config.icecolors config.honorsClear
      columns config.rows stream stream.art.length :=
    Player.terminal_renderAll_new file (.ofOptions (wish "9"))
  have hcolumns : 0 < columns := Config.columnsFor_pos o (stream.record.bind Sauce.columns)
  have hcells : cells.rows = config.rows := Script.rows_cells ..
  have hrows : 0 < cells.rows := hcells ▸ Config.rows_ofOptions_pos o
  obtain ⟨hpositive, hsixteen⟩ := Font.height_preset config.font .nine
  have hfits : columns * 9 * (cells.rows * nineFont.height) * 4 < Raster.byteLimit :=
    Raster.bytes_lt_of_small (Config.columnsFor_le o _) (hcells ▸ Config.rows_ofOptions_le o)
      (Nat.le_refl 9) hsixteen
  have hdepictsNine : nine.screen.Depicts nineFont .ansi columns cells :=
    hdrawnNine ▸ Reading.depicts_freshAfter ..
  have hdepictsEight : eight.screen.Depicts eightFont .ansi columns cells :=
    hdrawnEight ▸ Reading.depicts_freshAfter ..
  obtain ⟨hwidths, hheight⟩ :=
    hdepictsNine.size_visible_eq hwidens hdepictsEight hcolumns hrows hpositive hfits
  refine ⟨?_, hwidths, ?_, fun column y => ?_⟩
  · -- one script for both
    rw [hdrawnNine, hdrawnEight, Reading.freshAfter_eq, Reading.freshAfter_eq]
    exact ⟨rfl, rfl, rfl⟩
  · show (nine.screen.visible.reduce (Raster.blockFactor config.thumbnail)).height
      = (eight.screen.visible.reduce (Raster.blockFactor config.thumbnail)).height
    rw [Raster.height_reduce, Raster.height_reduce, hheight]
  · have hfont : nine.font = nineFont := by
      rw [hdrawnNine, Reading.freshAfter_eq]
      rfl
    rw [hfont]
    exact hdepictsNine.nine_columns hwidens hdepictsEight hfits column y

end TextArt
