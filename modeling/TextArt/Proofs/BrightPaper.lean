import TextArt.Proofs.Forms

namespace TextArt

/-!
# Bright paper — the blink, frozen while it is on

A terminal may show blinking characters on bright paper instead of letting them blink.  A
character that blinks does so on the same bright paper while the blink is on; so, as long as
no paper from outside the palette is chosen, the still picture of the one terminal is the
picture of the other in its on phase.

* `Command.KeepsPalette` — a command chooses no paper from outside the palette;
* `Pen.Plain` — a pen that only such commands have changed, which they preserve
  (`Pen.Plain.onPen`);
* `Cell.Freezes` — a cell of the one terminal is a cell of the other in its on phase, which
  every character preserves (`Cell.Freezes.write`);
* `Reading.brightPaper_eq_onPhase` — so the pictures of the terminals are related, too.
-/

/-- A command does not choose paper from outside the palette; `freeColor` is the only one that
    can. -/
def Command.KeepsPalette : Command → Prop
  | freeColor paper _ => paper = false
  | _ => True

instance : DecidablePred Command.KeepsPalette
  | .freeColor paper _ => instDecidableEqBool paper false
  | .up _ | .down _ | .forward _ | .backward _ | .position _ _ | .eraseDisplay _ | .eraseLine
  | .rendition _ | .saveCursor | .restoreCursor => isTrue trivial

namespace Pen

/-- The paper of the pen is from the palette (`freeBackground` is `none`), and its ink is solid. -/
structure Plain (p : Pen) : Prop where
  freeBackground_eq : p.freeBackground = none
  solid : ∀ color ∈ p.freeForeground, color.alpha = 255

variable {p : Pen}

theorem plain_initial : initial.Plain :=
  ⟨rfl, fun _ h => nomatch h⟩

/-- A rendition number takes away free colours, and chooses none, so `Pen.apply` keeps a pen
    `Plain`. -/
theorem Plain.apply (h : p.Plain) (value : Int) : (p.apply value).Plain := by
  have hnone : ∀ color ∈ (none : Option Color), color.alpha = 255 := fun _ h => nomatch h
  -- all colours are taken away, or none, or the ink, or the paper
  unfold Pen.apply
  repeat' split
  all_goals first
    | exact plain_initial
    | exact ⟨h.freeBackground_eq, h.solid⟩
    | exact ⟨h.freeBackground_eq, hnone⟩
    | exact ⟨rfl, h.solid⟩

theorem Plain.foldl_apply (h : p.Plain) (values : List Int) : (values.foldl Pen.apply p).Plain := by
  induction values generalizing p with
  | nil => exact h
  | cons value values ih => exact ih (h.apply value)

/-- A command that `KeepsPalette` keeps a pen `Plain`. -/
theorem Plain.onPen (h : p.Plain) {command : Command} (hkeeps : command.KeepsPalette)
    (hsolid : command.Solid) : (command.onPen p).Plain := by
  cases command with
  | rendition values => exact h.foldl_apply values
  | freeColor paper color =>
    cases paper with
    | true => exact nomatch hkeeps
    | false =>
      refine ⟨h.freeBackground_eq, fun other hother => ?_⟩
      cases hother
      exact hsolid
  | _ => exact h

/-- The ink of a `Plain` pen is solid: its `alpha` is 255. -/
theorem Plain.alpha_ink (h : p.Plain) (palette : Palette) (icecolors : Bool) :
    (p.look palette icecolors).ink.alpha = 255 := by
  show (p.freeForeground.getD (palette.color p.indices.1)).alpha = 255
  cases hfree : p.freeForeground with
  | none => exact Palette.alpha_color ..
  | some color => exact h.solid color hfree

/-- The paper of a `Plain` pen is the palette's colour at `paperIndex`. -/
theorem Plain.paper_eq (h : p.Plain) (palette : Palette) (icecolors : Bool) :
    (p.look palette icecolors).paper = palette.color (p.paperIndex icecolors) := by
  show p.freeBackground.getD _ = _
  rw [h.freeBackground_eq]
  rfl

end Pen

namespace Cell

/-- A cell `bright` that does not blink shows what another one, `blinking`, shows while the blink is
    on. -/
structure Freezes (font : Font) (palette : Palette) (bright blinking : Cell) : Prop where
  blinker_eq : bright.blinker = none
  visible_eq : ∀ i j, bright.visible font palette i j
    = (blinking.mask font .on i j).onto (blinking.visible font palette i j)

variable {font : Font} {palette : Palette} {bright blinking : Cell} {pen : Pen}

theorem freezes_empty (font : Font) (palette : Palette) : Freezes font palette {} {} :=
  ⟨rfl, fun _ _ => rfl⟩

/-- A character drawn with a `Plain` pen is drawn bright in the one cell, and blinks on the same
    bright paper in the other, or is steady in both. -/
theorem Freezes.write (h : bright.Freezes font palette blinking) (code : UInt8)
    (hpen : pen.Plain) :
    (bright.write palette true code pen).Freezes font palette
      (blinking.write palette false code pen) := by
  -- with bright paper no pen touches the masks
  have hkeep : (pen.look palette true).masks = .keep := rfl
  refine ⟨?_, fun i j => ?_⟩
  · simp only [Cell.write, hkeep]
    exact h.blinker_eq
  · have hink := hpen.alpha_ink palette false
    show (if font.inked code i j then (pen.look palette true).ink
        else (pen.look palette true).paper) = _
    cases hblink : pen.blink with
    | true =>
      -- the mask has the character in the same ink on the same bright paper
      have hmasks : (pen.look palette false).masks
          = .blink (palette.color (pen.indices.2 + 8)) (palette.color pen.indices.2) := by
        simp [Pen.look, Pen.maskChange, hpen.freeBackground_eq, hblink]
      have hbright : pen.paperIndex true = pen.indices.2 + 8 := by
        simp [Pen.paperIndex, hpen.freeBackground_eq, hblink]
      simp only [Cell.write, Cell.mask, hmasks, Blinker.tile]
      rw [hpen.paper_eq, hbright]
      split
      · exact (Color.onto_of_alpha_full hink _).symm
      · exact (Color.onto_of_alpha_full (Palette.alpha_color ..) _).symm
    | false =>
      -- nothing is on the mask, and the paper is the same
      have hmasks : (pen.look palette false).masks = .clear := by
        simp [Pen.look, Pen.maskChange, hpen.freeBackground_eq, hblink]
      have hsame : pen.paperIndex true = pen.paperIndex false := by
        simp [Pen.paperIndex, hblink]
      simp only [Cell.write, Cell.mask, hmasks, Color.transparent_onto]
      rw [hpen.paper_eq, hsame, ← hpen.paper_eq]
      rfl

end Cell

/-! ### Whole streams -/

namespace Reading

variable (font : Font) (palette : Palette) (honorsClear : Bool) (columns rows : Nat)
  (s : ByteStream) (n : Nat)

/-- The pictures of a terminal with `icecolors` and of one that lets characters blink have the
    `SameSize`. -/
theorem sameSize_freshAfter :
    (freshAfter font palette true honorsClear columns rows s n).screen.visible.SameSize
      (freshAfter font palette false honorsClear columns rows s n).screen.visible := by
  have hbright := Edit.sameForm_foldr_onScreen font palette true
    ((Script.fresh columns rows honorsClear).afterBytes n s.rest).edits
    (Terminal.fresh font palette true honorsClear columns rows).screen
  have hblinking := Edit.sameForm_foldr_onScreen font palette false
    ((Script.fresh columns rows honorsClear).afterBytes n s.rest).edits
    (Terminal.fresh font palette false honorsClear columns rows).screen
  rw [freshAfter_eq, freshAfter_eq]
  exact hbright.visible.trans hblinking.visible.symm

/-- Cells on bright paper are blinking cells in their on phase: `Freezes` holds cell by cell along a
    stream that keeps to the palette. -/
theorem freezes_cells
    (hkeeps : (Script.fresh columns rows honorsClear).OnlyObeys Command.KeepsPalette n s.rest) :
    Grid.Forall₂ (Cell.Freezes font palette)
      (((Script.fresh columns rows honorsClear).afterBytes n s.rest).cells palette true rows)
      (((Script.fresh columns rows honorsClear).afterBytes n s.rest).cells palette false
        rows) := by
  have hfresh : (Script.fresh columns rows honorsClear).DrawsWith Pen.Plain :=
    ⟨Pen.plain_initial, fun _ h => nomatch h⟩
  have hplain : ((Script.fresh columns rows honorsClear).afterBytes n s.rest).DrawsWith
      Pen.Plain :=
    hkeeps.afterBytes
      (fun d demand hd hallowed => hd.meet fun command hdemand =>
        hd.pen.onPen (hallowed command hdemand).1 (hallowed command hdemand).2)
      hfresh
  have hwrite : ∀ (code : UInt8) (pen : Pen) (a b : Cell), pen.Plain →
      a.Freezes font palette b →
      (a.write palette true code pen).Freezes font palette (b.write palette false code pen) :=
    fun code pen a b hpen h => h.write code hpen
  exact (Grid.forall₂_blank (Cell.freezes_empty font palette) rows).foldr_edit_of
    (Cell.freezes_empty font palette) hwrite hplain.edits

/-- **Bright paper is the on phase of the blink.** Let two terminals take a stream, one with
    `icecolors` and one without, and let all commands so far be ones that `KeepsPalette` holds of.
    Then the two agree on cursors, pen, open sequence and scrolls; both masks of the first are
    transparent everywhere; and its picture is that of the second with the on mask laid over it. -/
theorem brightPaper_eq_onPhase
    (hkeeps : OnlyObeys Command.KeepsPalette n
      { terminal := .fresh font palette false honorsClear columns rows, stream := s }) :
    let bright := freshAfter font palette true honorsClear columns rows s n
    let blinking := freshAfter font palette false honorsClear columns rows s n
    (bright.session = blinking.session
      ∧ bright.pending = blinking.pending
      ∧ bright.scrolls = blinking.scrolls)
    ∧ (∀ phase x y, (bright.screen.mask phase).pixel? x y
      = if Raster.OnCells columns rows font.width font.height x y then some .transparent
        else none)
    ∧ bright.screen.visible = blinking.screen.visible.overlay blinking.screen.onMask := by
  intro bright blinking
  have hbright := freshAfter_eq font palette true honorsClear columns rows s n
  have hblinking := freshAfter_eq font palette false honorsClear columns rows s n
  have hcells := freezes_cells font palette honorsClear columns rows s n hkeeps.script
  refine ⟨⟨?_, ?_, ?_⟩, fun phase x y => ?_, ?_⟩
  · exact (congrArg Terminal.session hbright).trans (congrArg Terminal.session hblinking).symm
  · exact (congrArg Terminal.pending hbright).trans (congrArg Terminal.pending hblinking).symm
  · exact (congrArg Terminal.scrolls hbright).trans (congrArg Terminal.scrolls hblinking).symm
  · have hcell := hcells.cell (x / font.width) (y / font.height)
    rw [pixel?_mask, Cell.mask, hcell.blinker_eq]
  · have hsize := sameSize_freshAfter font palette honorsClear columns rows s n
    refine Raster.ext_pixel ?_ ?_ fun x y => ?_
    · rw [Raster.width_overlay]
      exact hsize.1
    · rw [Raster.height_overlay]
      exact hsize.2
    · -- pixel by pixel, and so cell by cell
      have hcell := hcells.cell (x / font.width) (y / font.height)
      rw [pixel?_visible, hcell.visible_eq]
      exact (pixel?_overlay font palette false honorsClear columns rows s n .on x y).symm

/-- A case of `brightPaper_eq_onPhase`: a blinking character and a steady one. -/
theorem brightPaper_of_blinking_character :
    let font := Font.preset "80x25" .eight
    let s := ByteStream.ofFile [0x1B, 0x5B, 0x35, 0x6D, 0x41, 0x1B, 0x5B, 0x32, 0x35, 0x6D, 0x42]
    OnlyObeys Command.KeepsPalette 11
      { terminal := .fresh font .ansi false true 4 2, stream := s }
    ∧ (freshAfter font .ansi true true 4 2 s 11).screen.visible
      = (freshAfter font .ansi false true 4 2 s 11).screen.visible.overlay
          (freshAfter font .ansi false true 4 2 s 11).screen.onMask := by
  intro font s
  have hkeeps : OnlyObeys Command.KeepsPalette 11
      { terminal := .fresh font .ansi false true 4 2, stream := s } := by
    decide
  obtain ⟨-, -, hpicture⟩ := brightPaper_eq_onPhase font .ansi true 4 2 s 11 hkeeps
  exact ⟨hkeeps, hpicture⟩

end Reading

end TextArt
